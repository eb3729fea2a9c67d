import Tasklang.Json.Printer
import Tasklang.Main
import Tasklang.Host.Shell.Reader
import Tasklang.Host.Shell.Arithmetic
import Tasklang.Host.Shell.Condition
import Tasklang.Host.Shell.Pattern
import Tasklang.Host.Shell.Session
import Tasklang.Host.Shell.Builtin
import Tasklang.Proofs.Later
import Tasklang.Proofs.Origins
import Tasklang.Proofs.Strict
import Tasklang.Proofs.Refusals
import Tasklang.Proofs.Rounds
import Tasklang.Proofs.Payloads
import Tasklang.Proofs.Sources
import Tasklang.Proofs.Identifiers
import Tasklang.Proofs.Slices
import Tasklang.Proofs.Embedding
import Tasklang.Proofs.Rendering
import Tasklang.Proofs.RoundTrip
import Tasklang.Proofs.Deeds
import Tasklang.Proofs.Environments
import Tasklang.Proofs.Frames
import Tasklang.Proofs.Locality
import Tasklang.Proofs.Denotations
import Tasklang.Proofs.Markers
import Tasklang.Proofs.Margins
import Tasklang.Proofs.Emitted
import Tasklang.Proofs.Unbound
import Tasklang.Proofs.Escaping
import Tasklang.Proofs.Untemplated
import Tasklang.Proofs.Emission
import Tasklang.Proofs.Literals
import Tasklang.Proofs.Decisions
import Tasklang.Proofs.Namespaces
import Tasklang.Proofs.Artifacts
import Tasklang.Proofs.Builds
import Tasklang.Proofs.Loading
import Tasklang.Proofs.Splicing
import Tasklang.Proofs.Components
import Tasklang.Proofs.Selections
import Tasklang.Proofs.Serialization
