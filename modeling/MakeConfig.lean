import MakeConfig.Main
import MakeConfig.Proofs.Artifact.Layout
import MakeConfig.Proofs.Item.Forms
import MakeConfig.Proofs.Item.Numbers
import MakeConfig.Proofs.Package.Entries
import MakeConfig.Proofs.Path.Template
import MakeConfig.Proofs.Plain.Imported
import MakeConfig.Proofs.Session.Answers
import MakeConfig.Proofs.Session.Confined
import MakeConfig.Proofs.Session.Nesting
import MakeConfig.Proofs.Session.Replay
import MakeConfig.Proofs.Tree.Choices
import MakeConfig.Proofs.Tree.Independent
import MakeConfig.Proofs.Path.Tokens
import MakeConfig.Proofs.Path.Normal
import MakeConfig.Proofs.History
import MakeConfig.Proofs.Program.Failures
import MakeConfig.Proofs.Program.Placement
import MakeConfig.Proofs.Schema.Decoding
import MakeConfig.Proofs.Session.BlankLines
import MakeConfig.Proofs.Variables.Deliveries
import MakeConfig.Proofs.Item.Derivations
