import HackVM.Machine.Assembler
import HackVM.Machine.Loader
import HackVM.Main
import HackVM.Proofs.AuthoredNames
import HackVM.Proofs.CallProtocol
import HackVM.Proofs.CleanFaults
import HackVM.Proofs.CommandRuns
import HackVM.Proofs.CommandTexts
import HackVM.Proofs.Comparisons
import HackVM.Proofs.EchoComments
import HackVM.Proofs.FirstFaults
import HackVM.Proofs.GeneratedLabels
import HackVM.Proofs.LabelScopes
import HackVM.Proofs.LineForms
import HackVM.Proofs.LinkOrder
import HackVM.Proofs.ModuleFiles
import HackVM.Proofs.PushPop
import HackVM.Proofs.ScopeChoice
import HackVM.Proofs.Simulation
import HackVM.Proofs.Sinks
import HackVM.Proofs.StaticCells
import HackVM.Proofs.WordedLines
import HackVM.Semantics
