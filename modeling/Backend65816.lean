import Backend65816.Command.Directory
import Backend65816.Main
import Backend65816.Proofs.FirstMatch
import Backend65816.Proofs.GlobalAccess
import Backend65816.Proofs.SelectedValues
import Backend65816.Proofs.EvaluationOrder
import Backend65816.Proofs.ComparisonOrder
import Backend65816.Proofs.RestoredState
import Backend65816.Proofs.SimultaneousPassing
import Backend65816.Proofs.StackBalance
import Backend65816.Proofs.LabelUse
import Backend65816.Proofs.DirectPage
import Backend65816.Proofs.DispatchArguments
import Backend65816.Proofs.ExactLiveness
import Backend65816.Proofs.BodyIndependence
import Backend65816.Proofs.DeclaredReturns
import Backend65816.Proofs.CheckedCalls
