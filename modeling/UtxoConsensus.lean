import UtxoConsensus.ActiveChain.HeaderStore
import UtxoConsensus.Error
import UtxoConsensus.Money.Decimal
import UtxoConsensus.Node.Standalone
import UtxoConsensus.Node.Verifier
import UtxoConsensus.Settings.Document
import UtxoConsensus.Proofs.Spend.InputAnswers
import UtxoConsensus.Proofs.Interpreter.ReplayProtection
import UtxoConsensus.Proofs.Interpreter.RestrictionFlags
import UtxoConsensus.Proofs.BlockTree.Acceptance
import UtxoConsensus.Proofs.Signature.Commitment
import UtxoConsensus.Proofs.Signature.LegacyCopy
import UtxoConsensus.Proofs.BlockTree.Paths
import UtxoConsensus.Proofs.ActiveChain.Histories
import UtxoConsensus.Proofs.ActiveChain.Forks
import UtxoConsensus.Proofs.ActiveChain.Locators
import UtxoConsensus.Proofs.ActiveChain.Activations
import UtxoConsensus.Proofs.Spend.LimitedContexts
import UtxoConsensus.Proofs.Interpreter.LimitedKnowledge
import UtxoConsensus.Proofs.Node.StandaloneAnswers
import UtxoConsensus.Proofs.Interpreter.ScriptHashSpends
import UtxoConsensus.Proofs.Interpreter.Upgrades
import UtxoConsensus.Proofs.Interpreter.ElementSizes
import UtxoConsensus.Proofs.Interpreter.ListedBranches
import UtxoConsensus.Proofs.BlockTree.TotalWork
import UtxoConsensus.Proofs.Spend.CuckooHistories
import UtxoConsensus.Proofs.Spend.CuckooDuplicates
import UtxoConsensus.Proofs.Indexed.Runs
import UtxoConsensus.Proofs.Interpreter.ChosenKeys
import UtxoConsensus.Proofs.Interpreter.SignatureCounts
import UtxoConsensus.Proofs.Interpreter.ShortestPushes
import UtxoConsensus.Proofs.Interpreter.ExactArithmetic
import UtxoConsensus.Proofs.Signature.StrictDer
import UtxoConsensus.Proofs.Script.Deletion
import UtxoConsensus.Proofs.Interpreter.BuiltScripts
import UtxoConsensus.Proofs.BlockTree.SkipWalks
import UtxoConsensus.Proofs.BlockTree.WalkLengths
import UtxoConsensus.Proofs.ActiveChain.TimeSearch
import UtxoConsensus.Proofs.Work.ProofOfWork
import UtxoConsensus.Proofs.Work.EquivalentTime
import UtxoConsensus.Proofs.Indexed.VarInts
import UtxoConsensus.Proofs.Transaction.StoredOutputs
import UtxoConsensus.Proofs.Money.ValidAmounts
import UtxoConsensus.Proofs.Money.DecimalText
import UtxoConsensus.Proofs.Text.Base58
import UtxoConsensus.Proofs.Interpreter.StackShuffles
import UtxoConsensus.Proofs.Curve.SchnorrSignatures
