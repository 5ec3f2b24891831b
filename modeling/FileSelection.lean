import FileSelection.Main
import FileSelection.Proofs.CommandFile.BoundsRules
import FileSelection.Proofs.CommandFile.Interrupted
import FileSelection.Proofs.CommandFile.LineEnds
import FileSelection.Proofs.CommandFile.Messages
import FileSelection.Proofs.CommandFile.Negation
import FileSelection.Proofs.CommandFile.OrderLine
import FileSelection.Proofs.CommandFile.Resting
import FileSelection.Proofs.CommandFile.Written
import FileSelection.Proofs.File.Extension
import FileSelection.Proofs.File.Inventory
import FileSelection.Proofs.File.Names
import FileSelection.Proofs.Run.Completed
import FileSelection.Proofs.Run.Enumeration
import FileSelection.Proofs.Run.Formats
import FileSelection.Proofs.Run.Initialisation
import FileSelection.Proofs.Run.Logging
import FileSelection.Proofs.Run.PlainLines
import FileSelection.Proofs.Run.Success
import FileSelection.Proofs.Selection.Meaning
import FileSelection.Proofs.Selection.Reversal
