import Montage.Binary64.Arith
import Montage.Text.Split

/-!
# Output canvases

The four shapes a clip can be rendered in.
-/

namespace Montage

/-- The shape of the output picture. -/
inductive Canvas where
  | portrait
  | landscape
  | square
  | tall
  deriving DecidableEq, Repr

namespace Canvas

/-- Every canvas. -/
def all : List Canvas := [.portrait, .landscape, .square, .tall]

/-- Width in pixels. -/
def width : Canvas → Nat
  | .portrait => 1080
  | .landscape => 1920
  | .square => 1080
  | .tall => 1080

/-- Height in pixels. -/
def height : Canvas → Nat
  | .portrait => 1920
  | .landscape => 1080
  | .square => 1080
  | .tall => 1350

/-- Width over height. -/
def aspect (c : Canvas) : Binary64 := .ofNat c.width / .ofNat c.height

/-- The name of the canvas, as a ratio. -/
def label : Canvas → String
  | .portrait => "9:16"
  | .landscape => "16:9"
  | .square => "1:1"
  | .tall => "4:5"

/-- The name of the canvas in file names. -/
def slug : Canvas → String
  | .portrait => "9x16"
  | .landscape => "16x9"
  | .square => "1x1"
  | .tall => "4x5"

/-- The canvas of exactly that name. -/
def ofLabel? (name : String) : Option Canvas := all.find? fun c => c.label == name

/-- The canvas of a name written with white space around it. -/
def parse? (text : String) : Option Canvas := ofLabel? (Text.trim text)

theorem ofLabel?_label (c : Canvas) : ofLabel? c.label = some c := by
  cases c <;> decide

end Canvas

end Montage
