import UtxoConsensus.Proofs.Curve.KeyForms
import UtxoConsensus.Proofs.Interpreter.Spends
import UtxoConsensus.Proofs.Spend.CachedVerification

/-!
# A cache that is shared

While one spend is verified, others may use the same cache at the same time, so what a look-up finds
depends on all of them. Seen from one spend, a look-up may find anything: the spend is run with a
checker that is told the answers and records its own operations. Three facts about such runs hold
whatever the answers are. What is inserted was verified. Under strict encoding, all keys that are asked
for have one of the plain forms. And as long as no hit is a lie, the spend is answered as without a
cache.
-/

namespace UtxoConsensus

/-! ## Operations -/

/-- An operation on a cache: a look-up with its answer, or an insertion. -/
inductive CacheOp where
  | get (t : SignedMessage) (erase hit : Bool)
  | insert (t : SignedMessage)
deriving DecidableEq

def CacheOp.question : CacheOp → SignedMessage
  | .get t _ _ => t
  | .insert t => t

namespace SignatureCache

def lookUp (c : SignatureCache) (t : SignedMessage) (erase : Bool) : Bool × SignatureCache :=
  c.get (c.entry t.message t.key t.sig) erase

/-- The cache after an operation, if the answer of the operation is the one that the cache gives. -/
def perform? (c : SignatureCache) : CacheOp → Option SignatureCache
  | .get t erase hit => if (c.lookUp t erase).1 = hit then some (c.lookUp t erase).2 else none
  | .insert t => some (c.insert (c.entry t.message t.key t.sig))

def performAll? (c : SignatureCache) (ops : List CacheOp) : Option SignatureCache :=
  ops.foldlM perform? c

theorem perform?_get {c : SignatureCache} {t : SignedMessage} {erase hit : Bool}
    (h : (c.lookUp t erase).1 = hit) : c.perform? (.get t erase hit) = some (c.lookUp t erase).2 :=
  if_pos h

theorem performAll?_cons {c next : SignatureCache} {op : CacheOp} (h : c.perform? op = some next)
    (ops : List CacheOp) : c.performAll? (op :: ops) = next.performAll? ops := by
  unfold performAll?
  rw [List.foldlM_cons, h]
  rfl

theorem performAll?_append (c : SignatureCache) (ops more : List CacheOp) :
    c.performAll? (ops ++ more) = (c.performAll? ops).bind (·.performAll? more) :=
  List.foldlM_append

end SignatureCache

/-! ## Runs that are told the answers of the cache -/

/-- The answers to look-ups, given the operations before. -/
abbrev Replies := List CacheOp → SignedMessage → Bool

namespace Checker

/-- What a checker without state says about a question. -/
def accepts (inner : Checker Unit) (t : SignedMessage) : Bool :=
  ((inner.verifySignature t.sig t.key t.message).run ()).1

/-- Verifies as if behind a cache that gives the answers `replies`, and records the operations. -/
def recordedVerify (inner : Checker Unit) (store : Bool) (replies : Replies) (sig key : Bytes)
    (message : Hash256) : StateM (List CacheOp) Bool := fun ops ↦
  let t : SignedMessage := ⟨sig, key, message⟩
  if replies ops t then (true, ops ++ [.get t (!store) true])
  else
    (inner.accepts t, ops ++ .get t (!store) false ::
      if inner.accepts t && store then [.insert t] else [])

/-- A hit is recorded as one look-up. -/
theorem recordedVerify_of_hit {inner : Checker Unit} {store : Bool} {replies : Replies}
    {sig key : Bytes} {message : Hash256} {ops : List CacheOp}
    (hit : replies ops ⟨sig, key, message⟩ = true) :
    (recordedVerify inner store replies sig key message).run ops =
      (true, ops ++ [.get ⟨sig, key, message⟩ (!store) true]) :=
  if_pos hit

/-- After a miss a good answer is recorded as inserted, if the caller wants it. -/
theorem recordedVerify_of_miss {inner : Checker Unit} {store : Bool} {replies : Replies}
    {sig key : Bytes} {message : Hash256} {ops : List CacheOp}
    (miss : replies ops ⟨sig, key, message⟩ = false) :
    (recordedVerify inner store replies sig key message).run ops =
      (inner.accepts ⟨sig, key, message⟩, ops ++ .get ⟨sig, key, message⟩ (!store) false ::
        if inner.accepts ⟨sig, key, message⟩ && store then [.insert ⟨sig, key, message⟩] else []) :=
  if_neg (Bool.eq_false_iff.mp miss)

def recorded (inner : Checker Unit) (store : Bool) (replies : Replies) : Checker (List CacheOp) where
  verifySignature := recordedVerify inner store replies
  digest? := inner.digest?
  checkSig sig key scriptCode flags :=
    checkDigest (recordedVerify inner store replies) (inner.digest? sig scriptCode flags) sig key
  checkLockTime := inner.checkLockTime
  checkSequence := inner.checkSequence
  context := inner.context

/-- A recorded run looks at the same transaction, whatever it is told. -/
theorem recorded_sameTransaction (inner : Checker Unit) (store : Bool) (replies : Replies) :
    (recorded inner store replies).SameTransaction (recorded inner store replies) :=
  ⟨rfl, rfl, rfl, rfl, fun _ _ _ _ ↦ rfl, fun _ _ _ _ ↦ rfl⟩

end Checker

/-! ## What is recorded -/

/-- What is recorded in a spend: what is inserted was verified, and under strict encoding all keys that
are asked for are plain. -/
structure RecordSound (inner : Checker Unit) (flags : ScriptFlags) (ops : List CacheOp) : Prop where
  accepts_of_insert : ∀ t, .insert t ∈ ops → inner.accepts t = true
  plain_of_get : (effectiveFlags flags).contains .strictEnc = true →
    ∀ t erase hit, .get t erase hit ∈ ops → Encoding.hasPlainKeyForm t.key = true

theorem RecordSound.nil (inner : Checker Unit) (flags : ScriptFlags) : RecordSound inner flags [] where
  accepts_of_insert _ h := by cases h
  plain_of_get _ _ _ _ h := by cases h

theorem RecordSound.append {inner : Checker Unit} {flags : ScriptFlags} {ops more : List CacheOp}
    (h : RecordSound inner flags ops) (hmore : RecordSound inner flags more) :
    RecordSound inner flags (ops ++ more) where
  accepts_of_insert t ht :=
    (List.mem_append.mp ht).elim (h.accepts_of_insert t) (hmore.accepts_of_insert t)
  plain_of_get hstrict t erase hit ht :=
    (List.mem_append.mp ht).elim (h.plain_of_get hstrict t erase hit)
      (hmore.plain_of_get hstrict t erase hit)

/-- One call records what is sound, if the key has passed the rules. -/
theorem recordSound_recordedVerify {inner : Checker Unit} {flags : ScriptFlags} {store : Bool}
    {replies : Replies} {sig key : Bytes} {message : Hash256}
    (hkey : Encoding.checkPublicKey (effectiveFlags flags) key = .ok ()) {ops : List CacheOp}
    (hops : RecordSound inner flags ops) :
    RecordSound inner flags
      ((Checker.recordedVerify inner store replies sig key message).run ops).2 := by
  have hget (erase hit : Bool) : RecordSound inner flags [.get ⟨sig, key, message⟩ erase hit] := by
    constructor
    · intro t ht
      cases List.mem_singleton.mp ht
    · intro hstrict t erase hit ht
      cases List.mem_singleton.mp ht
      exact Encoding.hasPlainKeyForm_of_checkPublicKey hstrict hkey
  have hinsert (hgood : inner.accepts ⟨sig, key, message⟩ = true) :
      RecordSound inner flags [.insert ⟨sig, key, message⟩] := by
    constructor
    · intro t ht
      cases List.mem_singleton.mp ht
      exact hgood
    · intro _ t erase hit ht
      cases List.mem_singleton.mp ht
  cases hit : replies ops ⟨sig, key, message⟩ with
  | true =>
    rw [Checker.recordedVerify_of_hit hit]
    exact hops.append (hget _ _)
  | false =>
    rw [Checker.recordedVerify_of_miss hit]
    have hstored : RecordSound inner flags
        (if inner.accepts ⟨sig, key, message⟩ && store then [.insert ⟨sig, key, message⟩] else []) := by
      split
      · next hgood => exact hinsert (Bool.and_eq_true_iff.mp hgood).1
      · exact .nil _ _
    exact hops.append ((hget _ false).append hstored)

/-- Whole spends insert only what was verified. -/
theorem recordSound_verifyScript (inner : Checker Unit) (flags : ScriptFlags) (store : Bool)
    (replies : Replies) (unlocking locking : Bytes) :
    RecordSound inner flags
      ((verifyScript (.recorded inner store replies) flags unlocking locking).run []).2 :=
  verifyScript_keeps (Checker.recorded_sameTransaction inner store replies)
    (fun _ _ _ hkey _ hops ↦ recordSound_recordedVerify hkey hops) unlocking locking (.nil _ _)

/-! ## Without lies -/

/-- A hit for a question that would not be accepted. -/
def HasLie (inner : Checker Unit) (ops : List CacheOp) : Prop :=
  ∃ t erase, .get t erase true ∈ ops ∧ inner.accepts t = false

theorem HasLie.append {inner : Checker Unit} {ops : List CacheOp} (h : HasLie inner ops)
    (more : List CacheOp) : HasLie inner (ops ++ more) := by
  obtain ⟨t, erase, hmem, hbad⟩ := h
  exact ⟨t, erase, List.mem_append_left more hmem, hbad⟩

/-- The comparison with the checker without a cache, up to the first lie. -/
def Comparison.upToLie (inner : Checker Unit) : Comparison (List CacheOp) Unit where
  worlds _ _ := True
  void := HasLie inner
  lenient := False

/-- As long as no lie is told, the answers are those of the checker. -/
theorem asks_recordedVerify (inner : Checker Unit) (store : Bool) (replies : Replies)
    (sig key : Bytes) (message : Hash256) :
    (Comparison.upToLie inner).Asks (Checker.recordedVerify inner store replies sig key message)
      (inner.verifySignature sig key message) := by
  constructor
  · intro ops _ hlie
    cases hit : replies ops ⟨sig, key, message⟩ with
    | true =>
      rw [Checker.recordedVerify_of_hit hit]
      exact hlie.append _
    | false =>
      rw [Checker.recordedVerify_of_miss hit]
      exact hlie.append _
  · intro ops w _
    cases hit : replies ops ⟨sig, key, message⟩ with
    | true =>
      rw [Checker.recordedVerify_of_hit hit]
      cases hgood : inner.accepts ⟨sig, key, message⟩ with
      | true => exact .inr ⟨hgood.symm, trivial⟩
      | false => exact .inl ⟨_, _, List.mem_append_right ops (List.mem_singleton.mpr rfl), hgood⟩
    | false =>
      rw [Checker.recordedVerify_of_miss hit]
      exact .inr ⟨rfl, trivial⟩

/-- As long as no hit is a lie, a spend is answered as without a cache. -/
theorem verifyScript_recorded_of_no_lie {inner : Checker Unit} (hinner : inner.SameTransaction inner)
    {flags : ScriptFlags} {store : Bool} {replies : Replies} {unlocking locking : Bytes}
    (hlie : ¬ HasLie inner
      ((verifyScript (.recorded inner store replies) flags unlocking locking).run []).2) :
    ((verifyScript (.recorded inner store replies) flags unlocking locking).run []).1 =
      ((verifyScript inner flags unlocking locking).run ()).1 := by
  have hsame : (Checker.recorded inner store replies).SameTransaction inner :=
    ⟨rfl, rfl, rfl, rfl, fun _ _ _ _ ↦ rfl, hinner.checkSig⟩
  have halike : (Comparison.upToLie inner).Alike
      ⟨.recorded inner store replies, effectiveFlags flags⟩ ⟨inner, effectiveFlags flags⟩ :=
    hsame.alike fun sig key message _ ↦ asks_recordedVerify inner store replies sig key message
  have hasks := halike.verifyScript id unlocking locking
  exact ((hasks.agrees [] () trivial).resolve_left hlie).1

end UtxoConsensus
