import CodeBuffer.Buffer
import CodeBuffer.Highlighter.Registration
import CodeBuffer.Journal
import CodeBuffer.Region.Lemmas
import CodeBuffer.Regex.Engine
import CodeBuffer.Proofs.Scanning.Cache
import CodeBuffer.Proofs.Plain.Language
import CodeBuffer.Proofs.Plain.Explores
import CodeBuffer.Proofs.History.Coherent
import CodeBuffer.Proofs.History.Commands
import CodeBuffer.Proofs.History.Retracing
import CodeBuffer.Proofs.History.Session
import CodeBuffer.Proofs.Plain.Building
import CodeBuffer.Proofs.Plain.Crossing
import CodeBuffer.Proofs.Plain.Editing
import CodeBuffer.Proofs.Plain.Engine
import CodeBuffer.Proofs.Plain.Viewing
import CodeBuffer.Proofs.Region.Offsets
import CodeBuffer.Proofs.Upkeep.Progress
import CodeBuffer.Proofs.Painting.Matches
import CodeBuffer.Proofs.Painting.Shades
import CodeBuffer.Proofs.Painting.Marks
import CodeBuffer.Proofs.Painting.Tagged
import CodeBuffer.Proofs.Painting.Retuned
import CodeBuffer.Proofs.Painting.Independence
import CodeBuffer.Proofs.Document.Consistent
import CodeBuffer.Proofs.Document.Following
import CodeBuffer.Proofs.History.Calls
import CodeBuffer.Proofs.History.Numbered
import CodeBuffer.Proofs.Context.Dyes
import CodeBuffer.Proofs.Context.Tiled
import CodeBuffer.Proofs.Context.Moved
import CodeBuffer.Proofs.Context.Edited
import CodeBuffer.Proofs.Context.Retuned
import CodeBuffer.Proofs.Context.Windowed
import CodeBuffer.Proofs.Context.Kept
import CodeBuffer.Proofs.Bracket.Nearby
import CodeBuffer.Proofs.Bracket.Surveyed
import CodeBuffer.Proofs.Bracket.Partner
import CodeBuffer.Proofs.Bracket.Nested
import CodeBuffer.Proofs.Bracket.Current
import CodeBuffer.Proofs.Document.Adjacent
import CodeBuffer.Proofs.History.Segments
import CodeBuffer.Proofs.History.Merging
import CodeBuffer.Proofs.History.Keystrokes
import CodeBuffer.Proofs.History.Evicting
import CodeBuffer.Proofs.History.Clearing
import CodeBuffer.Proofs.History.Straying
import CodeBuffer.Proofs.History.Recalling
import CodeBuffer.Proofs.Document.Reverted
import CodeBuffer.Proofs.Region.Canonical
import CodeBuffer.Proofs.Region.Searched
import CodeBuffer.Proofs.Scanning.Partition
import CodeBuffer.Proofs.Scanning.Ruled
import CodeBuffer.Proofs.Painting.Handles
import CodeBuffer.Proofs.Painting.Reattached
import CodeBuffer.Proofs.Scanning.Delimiting
import CodeBuffer.Proofs.Painting.Greedy
import CodeBuffer.Proofs.Upkeep.Refusing
import CodeBuffer.Proofs.Painting.Released
import CodeBuffer.Proofs.Observing.Informed
