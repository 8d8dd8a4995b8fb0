import Assets.Interchange
import Assets.Main
import Assets.Plugin.Staged
import Assets.Proofs.Blob.RoundTrip
import Assets.Proofs.Batch.Isolation
import Assets.Proofs.Batch.Collection
import Assets.Proofs.Plugin.Standard
import Assets.Proofs.FileSet.Names
import Assets.Proofs.Batch.Canonical
import Assets.Proofs.Plugin.Names
import Assets.Proofs.Pipeline.Calls
import Assets.Proofs.Blob.Canonical
import Assets.Proofs.Config.Outcome
import Assets.Proofs.Plugin.Storable
import Assets.Proofs.Command.PackUnpack
import Assets.Proofs.Command.Overwriting
import Assets.Proofs.Css.Pieces
import Assets.Proofs.Css.Scoping
import Assets.Proofs.Command.Scheduling
import Assets.Proofs.Command.Effects
import Assets.Proofs.Command.Failing
import Assets.Proofs.Command.Emission
import Assets.Proofs.Command.PackCompile
import Assets.Proofs.Css.ClassMap
import Assets.Proofs.Css.Strings
import Assets.Proofs.Css.ClassNames
import Assets.Proofs.Css.Module
import Assets.Proofs.Json.NormalForm
import Assets.Proofs.Esm.Idempotence
import Assets.Proofs.Blob.EmptyFields
import Assets.Proofs.Esm.Pins
import Assets.Proofs.Pipeline.Trail
import Assets.Proofs.Pipeline.Composition
import Assets.Proofs.Path.Escaping
import Assets.Proofs.Tree.Loading
import Assets.Proofs.Tree.Packable
import Assets.Proofs.Esm.Versions
import Assets.Proofs.FileSet.Repeats
