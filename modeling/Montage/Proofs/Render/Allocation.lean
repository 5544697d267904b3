import Montage.Proofs.Render.Scratch

/-! # Calls to a scratch directory

Whatever calls are made one after another, each is handed a path of its own, which is registered
even if no file can be written there. The cleanup then leaves nothing, and comes to nothing when it
is made again. -/

namespace Montage

namespace Scratch

/-! ## Numbers in names -/

/-- A stem without a dash ends at the first dash, and the number at the first dot after it. -/
theorem fileName_inj {stem stem' extension extension' : String} {id id' : Nat}
    (hstem : '-' ∉ stem.toList) (hstem' : '-' ∉ stem'.toList)
    (h : fileName stem extension id = fileName stem' extension' id') :
    stem = stem' ∧ id = id' ∧ extension = extension' := by
  have hlist := congrArg String.toList h
  rw [toList_fileName, toList_fileName] at hlist
  have hdot (n : Nat) : '.' ∉ Decimal.padded 3 n := Decimal.not_mem_padded (by decide) 3 n
  obtain ⟨hstems, hlist⟩ := Text.eq_of_append_cons hstem hstem' hlist
  obtain ⟨hids, hextensions⟩ := Text.eq_of_append_cons (hdot id) (hdot id') hlist
  exact ⟨String.toList_injective hstems, Decimal.padded_inj hids,
    String.toList_injective hextensions⟩

example : fileName "frame" "jpg-001.bak" 0 = fileName "frame-000.jpg" "bak" 1 := by decide +kernel

/-! ## Calls -/

/-- A call for a path, or for a path and a file there. -/
inductive Request where
  | allocate (stem extension : String)
  | write (stem extension : String) (bytes : List UInt8)

namespace Request

def stem : Request → String
  | allocate stem _ | write stem _ _ => stem

def extension : Request → String
  | allocate _ extension | write _ extension _ => extension

/-- The path for the call with a number. -/
def path (root : String) (request : Request) (id : Nat) : String :=
  Path.join root (fileName request.stem request.extension id)

/-- The answer to a call, and the scratch directory and the files after it. -/
def serve (request : Request) (s : Scratch) (t : FileTree) :
    Except Fault String × Scratch × FileTree :=
  match request with
  | allocate stem extension =>
      let (s, path) := s.allocate stem extension
      (.ok path, s, t)
  | write stem extension bytes =>
      let written := s.write t stem extension bytes
      match written.2 with
      | .ok (t, path) => (.ok path, written.1, t)
      | .error fault => (.error fault, written.1, t)

/-- A stem without slashes and dashes, and an extension without slashes. -/
structure Plain (request : Request) : Prop where
  slash_stem : '/' ∉ request.stem.toList
  dash_stem : '-' ∉ request.stem.toList
  slash_extension : '/' ∉ request.extension.toList

/-- A call is answered by its path. Only a file may be refused. -/
inductive Answered (root : String) : Request × Nat → Except Fault String → Prop
  | path (request : Request) (id : Nat) :
      Answered root (request, id) (.ok (request.path root id))
  | refused (stem extension : String) (bytes : List UInt8) (id : Nat) (fault : Fault) :
      Answered root (.write stem extension bytes, id) (.error fault)

variable {request request' : Request} {root : String} {s : Scratch} {t : FileTree}

section Writing

variable {made : FileTree} {stem extension : String} {bytes : List UInt8}

theorem serve_write_of_ok (h : t.write (s.allocate stem extension).2 bytes = .ok made) :
    (write stem extension bytes).serve s t =
      (.ok (s.allocate stem extension).2, (s.allocate stem extension).1, made) := by
  unfold serve Scratch.write
  dsimp only
  rw [h]

theorem serve_write_of_error {e : OsError}
    (h : t.write (s.allocate stem extension).2 bytes = .error e) :
    (write stem extension bytes).serve s t =
      (.error (.io e.message), (s.allocate stem extension).1, t) := by
  unfold serve Scratch.write
  dsimp only
  rw [h]

end Writing

/-- A call allocates its path, and at most writes there. -/
theorem serve_cases (request : Request) (s : Scratch) (t : FileTree) :
    Answered s.root (request, s.nextId) (request.serve s t).1 ∧
      (request.serve s t).2.1 = (s.allocate request.stem request.extension).1 ∧
      ((request.serve s t).2.2 = t ∨
        ∃ bytes, t.write (request.path s.root s.nextId) bytes = .ok (request.serve s t).2.2) := by
  cases request with
  | allocate stem extension => exact ⟨.path (allocate stem extension) s.nextId, rfl, .inl rfl⟩
  | write stem extension bytes =>
      have hpath : (s.allocate stem extension).2 =
          (write stem extension bytes).path s.root s.nextId := rfl
      cases hwrite : t.write (s.allocate stem extension).2 bytes with
      | ok made =>
          rw [serve_write_of_ok hwrite, hpath]
          exact ⟨.path _ s.nextId, rfl, .inr ⟨bytes, hpath ▸ hwrite⟩⟩
      | error e =>
          rw [serve_write_of_error hwrite]
          exact ⟨.refused stem extension bytes s.nextId (.io e.message), rfl, .inl rfl⟩

theorem Plain.onePart (h : request.Plain) (id : Nat) :
    Path.OnePart (fileName request.stem request.extension id) :=
  onePart_fileName h.slash_stem h.slash_extension id

/-- Paths that count as the same are for the same call. -/
theorem Plain.eq_of_same (h : request.Plain) (h' : request'.Plain) {id id' : Nat}
    (hsame : Path.same (request.path root id) (request'.path root id')) : id = id' := by
  have hnames := Path.fileName?_eq_of_same hsame
  rw [path, path, Path.fileName?_join (h.onePart id), Path.fileName?_join (h'.onePart id'),
    Option.some.injEq] at hnames
  exact (fileName_inj h.dash_stem h'.dash_stem hnames).2.1

end Request

/-- The answers to calls one after another, and the scratch directory and the files after them.
Before each call, others may have done something to the files. -/
def serveAll (others : Nat → FileTree → FileTree) :
    List Request → Scratch → FileTree → List (Except Fault String) × Scratch × FileTree
  | [], s, t => ([], s, t)
  | request :: requests, s, t =>
      let served := request.serve s (others s.nextId t)
      let later := serveAll others requests served.2.1 served.2.2
      (served.1 :: later.1, later.2)

variable {others : Nat → FileTree → FileTree} {requests : List Request} {s : Scratch}
  {t t' : FileTree} {root : String}

/-- Every call is answered, and the paths for all of them are registered in order. -/
theorem serveAll_eq (others : Nat → FileTree → FileTree) (requests : List Request) (s : Scratch)
    (t : FileTree) :
    List.Forall₂ (Request.Answered s.root) (requests.zipIdx s.nextId)
        (serveAll others requests s t).1 ∧
      (serveAll others requests s t).2.1 =
        { s with
          registered := s.registered ++
            (requests.zipIdx s.nextId).map fun (request, id) => request.path s.root id
          nextId := s.nextId + requests.length } := by
  induction requests generalizing s t with
  | nil => exact ⟨.nil, by simp [serveAll]⟩
  | cons request requests ih =>
      obtain ⟨hanswer, hscratch, -⟩ := request.serve_cases s (others s.nextId t)
      obtain ⟨hanswers, hlater⟩ := ih (request.serve s (others s.nextId t)).2.1
        (request.serve s (others s.nextId t)).2.2
      rw [hscratch] at hanswers hlater
      rw [serveAll, hscratch]
      refine ⟨.cons hanswer hanswers, hlater.trans ?_⟩
      simp [allocate, Request.path, Nat.add_assoc, Nat.add_comm 1]

/-- What calls one after another leave in a registry that was empty. -/
structure Registers (root : String) (requests : List Request) (answers : List (Except Fault String))
    (s : Scratch) : Prop where
  answered : List.Forall₂ (Request.Answered root) requests.zipIdx answers
  registered : s.registered = requests.zipIdx.map fun (request, id) => request.path root id
  /-- The next number is that of the calls, so that it keeps to 32 bits as long as this does. -/
  counted : s.nextId = requests.length
  direct : ∀ path ∈ s.registered,
    Path.parent? path = some root ∧ ∃ name, Path.fileName? path = some name
  distinct : s.registered.Pairwise fun a b => ¬ Path.same a b

/-- What is left once the scratch directory was cleaned up: nothing, and nothing to do. -/
structure CleansUp (s : Scratch) (t : FileTree) : Prop where
  registered : (s.cleanup t).1.registered = []
  vacant : ∀ path ∈ s.root :: s.registered, (s.cleanup t).2.Vacant path
  idle : ∀ u, (s.cleanup t).1.cleanup u = ((s.cleanup t).1, u)

/-- The calls to a new scratch directory, whatever others do to the files meanwhile. -/
theorem serveAll_new (others : Nat → FileTree → FileTree) (requests : List Request) (root : String)
    (t : FileTree) :
    List.Forall₂ (Request.Answered root) requests.zipIdx
        (serveAll others requests { root } t).1 ∧
      (serveAll others requests { root } t).2.1 =
        { root
          registered := requests.zipIdx.map fun (request, id) => request.path root id
          nextId := requests.length } := by
  simpa using serveAll_eq others requests { root } t

section Calls

variable (hplain : ∀ request ∈ requests, request.Plain)

include hplain

theorem rooted_serveAll (others : Nat → FileTree → FileTree) (root : String) (t : FileTree) :
    (serveAll others requests { root } t).2.1.Rooted root := by
  rw [(serveAll_new others requests root t).2]
  refine ⟨rfl, rfl, fun path hpath => ?_⟩
  obtain ⟨⟨request, id⟩, hrequest, rfl⟩ := List.mem_map.mp hpath
  exact ⟨_, (hplain request (List.fst_mem_of_mem_zipIdx hrequest)).onePart id, rfl⟩

theorem registers_serveAll {parent name : String} (hname : Path.OnePart name)
    (hroot : root = Path.join parent name) (others : Nat → FileTree → FileTree) (t : FileTree) :
    Registers root requests (serveAll others requests { root } t).1
      (serveAll others requests { root } t).2.1 := by
  obtain ⟨hanswers, hscratch⟩ := serveAll_new others requests root t
  have hrooted := rooted_serveAll hplain others root t
  refine ⟨hanswers, by rw [hscratch], by rw [hscratch], fun path hpath => ?direct, ?distinct⟩
  case direct =>
    obtain ⟨file, hfile, rfl⟩ := hrooted.registered path hpath
    refine ⟨?_, file, Path.fileName?_join hfile root⟩
    rw [Path.parent?_join hfile, hroot, Path.normalEnd_join hname]
  case distinct =>
    have hids : requests.zipIdx.Pairwise fun a b => a.2 < b.2 := by
      rw [← List.pairwise_map (f := Prod.snd), List.zipIdx_map_snd]
      exact List.pairwise_lt_range'
    rw [hscratch, List.pairwise_map]
    refine hids.imp_of_mem fun {a b} ha hb hlt hsame => hlt.ne ?_
    exact (hplain a.1 (List.fst_mem_of_mem_zipIdx ha)).eq_of_same
      (hplain b.1 (List.fst_mem_of_mem_zipIdx hb)) hsame

end Calls

theorem Rooted.cleansUp (hs : s.Rooted root) {parent name : String}
    (hparent : Path.isAbsolute parent) (hname : Path.OnePart name)
    (hroot : root = Path.join parent name)
    (hfile : ∀ q, t.locateEntry root = .ok q → t.NoFile q) : CleansUp s t where
  registered := rfl
  vacant := by
    rw [hs.root_eq]
    exact hs.vacant_cleanup hparent hname hroot hfile
  idle _ := rfl

/-! ## Calls that are left alone -/

variable {place : Location}

/-- All that has come up is in the scratch directory. -/
structure Inside (t : FileTree) (place : Location) (t' : FileTree) : Prop where
  retains : (t.put place .directory).Retains t'
  outside : ∀ p, ¬ place <+: p → t'.entry? p = t.entry? p

theorem Inside.start (t : FileTree) (place : Location) :
    Inside t place (t.put place .directory) where
  retains := .refl _
  outside p hp := by
    refine FileTree.entry?_put_of_ne ?_
    rintro rfl
    exact hp (List.prefix_refl p)

theorem Inside.aligned (h : Inside t place t') (hnone : t.entry? place = none) : t.Aligned t' :=
  FileTree.aligned_of_link ((FileTree.Spares.put_directory [] hnone).toExtends.trans
    h.retains.toExtends).link (.refl t')

/-- A file that is written for a call is in the scratch directory. -/
theorem Inside.serve (h : Inside t place t') (hnone : t.entry? place = none)
    (hplaced : Placed t place s.root) {request : Request} (hplain : request.Plain) :
    Inside t place (request.serve s t').2.2 := by
  obtain ⟨-, -, hsame | ⟨bytes, hwrite⟩⟩ := request.serve_cases s t'
  · rwa [hsame]
  · obtain ⟨executable, hdirectory, hlink, hmade⟩ :=
      hplaced.write_join (h.aligned hnone) (hplain.onePart s.nextId) hwrite
    rw [hmade]
    refine ⟨h.retains.trans (.put_file hdirectory hlink bytes executable), fun p hp => ?_⟩
    rw [FileTree.entry?_put_of_ne, h.outside p hp]
    rintro rfl
    exact hp (List.prefix_append _ _)

theorem Inside.serveAll (hnone : t.entry? place = none) (hplaced : Placed t place root)
    (hplain : ∀ request ∈ requests, request.Plain) (hs : s.root = root) (h : Inside t place t') :
    Inside t place (Scratch.serveAll (fun _ u => u) requests s t').2.2 := by
  induction requests generalizing s t' with
  | nil => exact h
  | cons request requests ih =>
      obtain ⟨hfirst, hrest⟩ := List.forall_mem_cons.mp hplain
      obtain ⟨-, hscratch, -⟩ := request.serve_cases s t'
      refine ih hrest ?_ (h.serve hnone (hs ▸ hplaced) hfirst)
      rw [hscratch]
      exact hs

/-- The path of the scratch directory still leads there. -/
theorem Inside.locateEntry (h : Inside t place t') (hwf : t.WellFormed)
    (hnone : t.entry? place = none) {path : String} (hpath : t.locateEntry path = .ok place) :
    t'.locateEntry path = .ok place := by
  refine FileTree.locateEntry_kept (fun p hp => h.outside p fun hbelow => ?_) h.retains.bytewise
    h.retains.current hpath
  exact FileTree.not_leadsOn_of_none (hwf.none_of_below hnone hbelow) hp

theorem Inside.directory (h : Inside t place t') (hnone : t.entry? place = none) :
    t'.entry? place = some .directory :=
  h.retains.directory place
    (FileTree.entry?_put_self (FileTree.ne_root_of_not_directory (t := t) (by simp [hnone])))

/-- The cleanup takes away what has come up. -/
theorem Inside.entry?_cleanup (h : Inside t place t') (hwf : t.WellFormed)
    (hnone : t.entry? place = none) (hplaced : Placed t place root) (hs : s.Rooted root)
    (hleads : t'.locateEntry root = .ok place) (p : Location) :
    FileTree.entry? (s.cleanup t').2 p = t.entry? p := by
  have haligned := h.aligned hnone
  by_cases hp : place <+: p
  · have hne : place ≠ [] := FileTree.ne_root_of_not_directory (t := t) (by simp [hnone])
    rw [hplaced.entry?_cleanup_of_below hs haligned hleads (h.directory hnone) hne hp,
      hwf.none_of_below hnone hp]
  · exact (hplaced.entry?_cleanup hs haligned hp).trans (h.outside p hp)

/-- Calls one after another to a new scratch directory are answered by paths of their own in it,
all of which are registered, and the cleanup leaves none of them and does all that there is to do.
Others may do to the files what they like, but put a file in place of the directory. If they do
nothing, the cleanup leaves all as it was. -/
theorem serveAll_cleanup {parent suffix : String} (hsuffix : '/' ∉ suffix.toList)
    (hnew : new t parent suffix = .ok (t', s)) (hplain : ∀ request ∈ requests, request.Plain) :
    (∀ others,
      let served := serveAll others requests s t'
      Registers s.root requests served.1 served.2.1 ∧
        ∀ u : FileTree, (∀ q, u.locateEntry s.root = .ok q → u.NoFile q) →
          CleansUp served.2.1 u) ∧
    (t.WellFormed →
      let served := serveAll (fun _ u => u) requests s t'
      CleansUp served.2.1 served.2.2 ∧
        ∀ p, FileTree.entry? (served.2.1.cleanup served.2.2).2 p = t.entry? p) := by
  have hmade (hwf : t.WellFormed) := placed_of_new hwf (.refl t) hnew
  obtain ⟨rfl, -⟩ := new_eq_ok hnew
  obtain ⟨whole, hwhole, hroot⟩ := exists_rootIn_eq_join t parent suffix
  have hname := onePart_nameStart_append hsuffix
  generalize rootIn t parent suffix = root at *
  have hcleans (others : Nat → FileTree → FileTree) (u : FileTree)
      (hfile : ∀ q, u.locateEntry root = .ok q → u.NoFile q) :
      CleansUp (serveAll others requests { root } t').2.1 u :=
    (rooted_serveAll hplain others root t').cleansUp hwhole hname hroot hfile
  refine ⟨fun others => ⟨registers_serveAll hplain hname hroot others t', hcleans others⟩,
    fun hwf => ?_⟩
  obtain ⟨place, hplace, hplaced, hnone, rfl⟩ := hmade hwf
  have hinside := Inside.serveAll hnone hplaced hplain (s := { root }) rfl (.start t place)
  have hleads := hinside.locateEntry hwf hnone hplace
  refine ⟨hcleans _ _ fun q hq bytes executable hfile => ?_, fun p =>
    hinside.entry?_cleanup hwf hnone hplaced (rooted_serveAll hplain _ root _) hleads p⟩
  obtain rfl := Except.ok.inj (hq.symm.trans hleads)
  cases hfile.symm.trans (hinside.directory hnone)

/-- Captions are written, a file whose name no file can have is refused, and a frame is only
allocated. Somebody fills the directory, and cleans up twice. -/
theorem serveAll_cleanup_of_refused :
    let t : FileTree := { entries := [(Location.key ["scratch"], .directory)] }
    let requests : List Request :=
      [.write "captions" "ass" [91], .write "frame\x00" "jpg" [255], .allocate "frame" "jpg"]
    let root := "/scratch/reelcut-render-a"
    let made := t.put ["scratch", "reelcut-render-a"] .directory
    let served := serveAll (fun _ u => u) requests { root } made
    let crowded := served.2.2.put ["scratch", "reelcut-render-a", "stray.log"] (.file [120] false)
    new t "/scratch" "a" = .ok (made, { root }) ∧
      served.1[1]? = some (.error (.io "file name contained an unexpected NUL byte")) ∧
      served.2.1.registered = [root ++ "/captions-000.ass", root ++ "/frame\x00-001.jpg",
        root ++ "/frame-002.jpg"] ∧
      served.2.2.read (root ++ "/captions-000.ass") = .ok [91] ∧
      CleansUp served.2.1 crowded ∧
      ∀ p, FileTree.entry? (served.2.1.cleanup served.2.2).2 p = t.entry? p := by
  intro t requests root made served crowded
  have hwf : t.WellFormed := FileTree.wellFormed_of_entries (by decide)
  have hnew : new t "/scratch" "a" = .ok (made, { root }) := by decide +kernel
  have hplain : ∀ request ∈ requests, request.Plain := by
    intro request hrequest
    have hchecked : '/' ∉ request.stem.toList ∧ '-' ∉ request.stem.toList ∧
        '/' ∉ request.extension.toList := by
      revert request
      decide
    exact ⟨hchecked.1, hchecked.2.1, hchecked.2.2⟩
  obtain ⟨hcalls, halone⟩ := serveAll_cleanup (by decide) hnew hplain
  obtain ⟨-, hback⟩ := halone hwf
  obtain ⟨-, hcleans⟩ := hcalls fun _ u => u
  refine ⟨hnew, by decide +kernel, by decide +kernel, by decide +kernel, ?_, hback⟩
  have hroot : crowded.locateEntry root = .ok ["scratch", "reelcut-render-a"] := by decide +kernel
  refine hcleans crowded fun q hq => ?_
  obtain rfl := Except.ok.inj (hq.symm.trans hroot)
  decide +kernel

end Scratch

end Montage
