import Ubershader.Program.Build
import Ubershader.Proofs.Buffers
import Ubershader.Proofs.Bytes
import Ubershader.Proofs.Checksum
import Ubershader.Proofs.Directive
import Ubershader.Proofs.Lines
import Ubershader.Proofs.LocalChanges
import Ubershader.Proofs.Machine.Halts
import Ubershader.Proofs.PackedStruct
import Ubershader.Proofs.Program.ActiveMutators
import Ubershader.Proofs.Program.BlockStarts
import Ubershader.Proofs.Program.Coverage
import Ubershader.Proofs.Program.Header
import Ubershader.Proofs.Program.Identity
import Ubershader.Proofs.Program.Sensitivity
import Ubershader.Proofs.Reading.Blame
import Ubershader.Proofs.Reading.Comments
import Ubershader.Proofs.Reading.Course
import Ubershader.Proofs.Reading.Guards
import Ubershader.Proofs.Reading.IncludeOnce
import Ubershader.Proofs.Reading.Keywords
import Ubershader.Proofs.Reading.Markers
import Ubershader.Proofs.Reading.Nesting
import Ubershader.Proofs.Reading.Outline
import Ubershader.Proofs.Reading.Paths
import Ubershader.Proofs.Reading.Permission
import Ubershader.Proofs.Reading.Routing
import Ubershader.Proofs.Reading.Simulation
import Ubershader.Proofs.Reading.Structs
import Ubershader.Proofs.Reading.Substitution
import Ubershader.Proofs.Reading.Unmarked
import Ubershader.Proofs.Reading.Visits
import Ubershader.Proofs.Roster.Sound
import Ubershader.Proofs.Runs
import Ubershader.Proofs.Space.ByteForm
import Ubershader.Proofs.Space.Canonical
import Ubershader.Proofs.Space.Declarations
import Ubershader.Proofs.Space.Mutators
import Ubershader.Proofs.Space.Odometer
import Ubershader.Proofs.Space.Orbit
import Ubershader.Proofs.Space.Pairs
import Ubershader.Proofs.Space.Replacing
import Ubershader.Proofs.Space.Skipping
import Ubershader.Proofs.Space.Stability
import Ubershader.Proofs.Tokens
import Ubershader.Provider.Catalog
import Ubershader.Reading.Journal
import Ubershader.Settings.Load
