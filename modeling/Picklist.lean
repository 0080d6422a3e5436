import Picklist.Host.Tree
import Picklist.Main
import Picklist.Proofs.Choice.Rows
import Picklist.Proofs.Choice.Selection
import Picklist.Proofs.Condition.Meaning
import Picklist.Proofs.Condition.Admission
import Picklist.Proofs.Menu.Placing
import Picklist.Proofs.Menu.Reference
import Picklist.Proofs.Menu.Localized
import Picklist.Proofs.Reader
import Picklist.Proofs.Members
import Picklist.Proofs.Menu.Front
import Picklist.Proofs.Markup.Entities
import Picklist.Proofs.Markup.Grammar
import Picklist.Proofs.Markup.Reading
import Picklist.Proofs.Markup.Attributes
import Picklist.Proofs.Markup.Template
import Picklist.Proofs.Markup.View
import Picklist.Proofs.Publication.Passes
import Picklist.Proofs.Path.Composition
import Picklist.Proofs.Path.Extraction
import Picklist.Proofs.Path.Positions
import Picklist.Proofs.Keys
import Picklist.Proofs.Spelling
import Picklist.Proofs.Picker.Matched
import Picklist.Proofs.Picker.Forms
import Picklist.Proofs.Equality
import Picklist.Proofs.Condition.Building
import Picklist.Proofs.Condition.Sentinels
import Picklist.Proofs.Condition.Numbers
import Picklist.Proofs.Condition.Equality
import Picklist.Proofs.Menu.Merging
import Picklist.Proofs.Choice.Failure
import Picklist.Proofs.Menu.Distinct
import Picklist.Proofs.Menu.Reassembled
import Picklist.Proofs.Menu.Tagged
import Picklist.Proofs.Publication.Hidden
import Picklist.Proofs.Publication.Repeated
import Picklist.Proofs.Settings.Layers
import Picklist.Proofs.Json.Compact
import Picklist.Proofs.Settings.Written
import Picklist.Proofs.CommandLine.Clauses
