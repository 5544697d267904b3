import Montage.Caption.Encode
import Montage.Clip.Encode
import Montage.Main
import Montage.Proofs.Caption.Clock
import Montage.Proofs.Caption.Printing
import Montage.Proofs.Cli.Validation
import Montage.Proofs.Clip.Acceptance
import Montage.Proofs.Clip.Cutaways
import Montage.Proofs.Clip.Ramps
import Montage.Proofs.Clip.Words
import Montage.Proofs.Compile.Bands
import Montage.Proofs.Compile.Elision
import Montage.Proofs.Compile.ExactTimes
import Montage.Proofs.Compile.Factors
import Montage.Proofs.Compile.Gating
import Montage.Proofs.Compile.Invocation
import Montage.Proofs.Compile.Program
import Montage.Proofs.Compile.Reading
import Montage.Proofs.Compile.Stages
import Montage.Proofs.Compile.Subtitles
import Montage.Proofs.Compile.Voices
import Montage.Proofs.Compile.ZoomChoice
import Montage.Proofs.Config.Saving
import Montage.Proofs.Edit.Cropping
import Montage.Proofs.Edit.Documents
import Montage.Proofs.Edit.Images
import Montage.Proofs.Graph.Flow
import Montage.Proofs.Graph.Joining
import Montage.Proofs.Graph.Session
import Montage.Proofs.Graph.Terminals
import Montage.Proofs.Locate.Columns
import Montage.Proofs.Locate.Replies
import Montage.Proofs.Probe.Geometry
import Montage.Proofs.Progress.Encoding
import Montage.Proofs.Render.Allocation
import Montage.Proofs.Render.Cleanup
import Montage.Proofs.Render.OutputPath
import Montage.Proofs.Render.Progress
import Montage.Proofs.Render.Survival
