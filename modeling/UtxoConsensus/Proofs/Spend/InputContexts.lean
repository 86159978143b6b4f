import Mathlib.Data.List.FinRange
import UtxoConsensus.Spend.Inputs

/-!
# The contexts of all inputs

Where every input has its coin, each input has a context of its own, and they differ in the index
only. So the hashes that are taken from the first context are those of all others, and signatures are
checked with them as they are without.
-/

namespace UtxoConsensus

namespace SpendContext

/-- The context of one input of a transaction, given the coins of all inputs. -/
def ofInput (tx : Transaction) (spent : List TxOutput) (hspent : spent.length = tx.inputs.length)
    (index : Fin tx.inputs.length) : SpendContext :=
  ⟨tx, index, .full spent, index.isLt, hspent⟩

/-- The context of one input that knows only the coin of this input. -/
def ofOwnInput (tx : Transaction) (index : Fin tx.inputs.length) (coin : TxOutput) : SpendContext :=
  ⟨tx, index, .limited coin, index.isLt, trivial⟩

variable {tx : Transaction} {spent : List TxOutput} (hspent : spent.length = tx.inputs.length)

theorem full_eq_ok (index : Fin tx.inputs.length) :
    full tx index spent = .ok (ofInput tx spent hspent index) := by
  unfold full
  rw [dif_pos hspent, dif_pos index.isLt]
  rfl

theorem limited_eq_ok (index : Fin tx.inputs.length) (coin : TxOutput) :
    limited tx index coin = .ok (ofOwnInput tx index coin) :=
  dif_pos index.isLt

/-- There is a context for each input. -/
theorem forAllInputs_eq_ok :
    forAllInputs tx spent = .ok ((List.finRange tx.inputs.length).map (ofInput tx spent hspent)) := by
  unfold forAllInputs
  rw [← List.map_coe_finRange_eq_range, List.mapM_map]
  have hfull : (fun index ↦ full tx index spent) ∘ (fun index : Fin tx.inputs.length ↦ ↑index) =
      fun index ↦ pure (ofInput tx spent hspent index) := funext (full_eq_ok hspent)
  rw [hfull]
  exact List.mapM_pure

end SpendContext

/-- The hashes that inputs of one transaction share are right for each of them. -/
theorem transaction_ofContext {c first : SpendContext} (htx : first.tx = c.tx)
    (hcoins : first.allCoins? = c.allCoins?) :
    Checker.transaction c (some (.ofContext first)) = Checker.transaction c none := by
  have hdigest : Checker.transactionDigest? c (some (.ofContext first)) =
      Checker.transactionDigest? c none := by
    funext sig scriptCode flags
    unfold Checker.transactionDigest? signatureDigest forkIdDigest forkIdPreimage signedCoinsHash?
      signedOutputsHash SharedHashes.ofContext
    simp only [htx, hcoins, Option.elim_some, Option.elim_none, Option.bind_some, Option.bind_none,
      Option.none_or, Option.or_self]
  unfold Checker.transaction
  rw [hdigest]

end UtxoConsensus
