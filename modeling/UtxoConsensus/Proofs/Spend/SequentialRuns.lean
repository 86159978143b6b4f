import UtxoConsensus.Proofs.Spend.Interleavings

/-!
# Spends that are verified in turn

The checker that has a cache of its own is the one that is told the answers of that cache. So verifying
spends one after the other on a cache is one of the orders in which their operations can happen: all
those of the first spend, then all those of the second, and so on.
-/

namespace UtxoConsensus

/-! ## One spend -/

/-- The replies of a cache that nobody else uses. -/
def ownReplies (start : SignatureCache) (store : Bool) : Replies := fun ops t ↦
  (start.performAll? ops).elim false fun cache ↦ (cache.lookUp t !store).1

/-- The comparison of a checker that has a cache with one that records operations on it. -/
def Comparison.ofCache (start : SignatureCache) : Comparison (Unit × SignatureCache) (List CacheOp) where
  worlds s ops := start.performAll? ops = some s.2
  void _ := False
  lenient := False

theorem SignatureCache.performAll?_concat {start cache : SignatureCache} {ops : List CacheOp}
    (h : start.performAll? ops = some cache) (more : List CacheOp) :
    start.performAll? (ops ++ more) = cache.performAll? more := by
  rw [performAll?_append, h]
  rfl

/-- Telling a run the answers of the cache is running it with the cache. -/
theorem asks_cachedVerify (inner : Checker Unit) (start : SignatureCache) (store : Bool)
    (sig key : Bytes) (message : Hash256) :
    (Comparison.ofCache start).Asks
      (Checker.cachedVerify inner.verifySignature store sig key message)
      (Checker.recordedVerify inner store (ownReplies start store) sig key message) := by
  constructor
  · exact fun _ _ hvoid ↦ hvoid
  · rintro ⟨state, cache⟩ ops hops
    right
    have hreply : ownReplies start store ops ⟨sig, key, message⟩ =
        (cache.lookUp ⟨sig, key, message⟩ !store).1 := by
      unfold ownReplies
      rw [hops]
      rfl
    cases hit : (cache.lookUp ⟨sig, key, message⟩ !store).1 with
    | true =>
      rw [Checker.cachedVerify_of_hit _ store state ⟨sig, key, message⟩ cache hit,
        Checker.recordedVerify_of_hit (hreply.trans hit)]
      refine ⟨rfl, ?_⟩
      change start.performAll? (ops ++ _) = _
      rw [SignatureCache.performAll?_concat hops,
        SignatureCache.performAll?_cons (SignatureCache.perform?_get hit)]
      rfl
    | false =>
      rw [Checker.cachedVerify_of_miss _ store state ⟨sig, key, message⟩ cache hit,
        Checker.recordedVerify_of_miss (hreply.trans hit)]
      refine ⟨rfl, ?_⟩
      change start.performAll? (ops ++ _) = _
      rw [SignatureCache.performAll?_concat hops,
        SignatureCache.performAll?_cons (SignatureCache.perform?_get hit)]
      change SignatureCache.performAll? _ (if inner.accepts ⟨sig, key, message⟩ && store then _ else _) =
        some (if inner.accepts ⟨sig, key, message⟩ && store then _ else _)
      split <;> rfl

/-- A spend on a cache that nobody else uses is one that is told the answers of that cache. -/
theorem SpendJob.run_ownReplies (job : SpendJob) (start : SignatureCache) :
    let alone := (job.context.verify (.caching job.checker job.store) job.flags).run ((), start)
    let told := job.run (ownReplies start job.store)
    alone.1 = told.1 ∧ start.performAll? told.2 = some alone.2.2 := by
  have hsame : (Checker.caching job.checker job.store).SameTransaction
      (.recorded job.checker job.store (ownReplies start job.store)) :=
    ⟨rfl, rfl, rfl, rfl, fun _ _ _ _ ↦ rfl, fun _ _ _ _ ↦ rfl⟩
  have halike : (Comparison.ofCache start).Alike
      ⟨.caching job.checker job.store, effectiveFlags job.flags⟩
      ⟨.recorded job.checker job.store (ownReplies start job.store), effectiveFlags job.flags⟩ :=
    hsame.alike fun sig key message _ ↦ asks_cachedVerify job.checker start job.store sig key message
  have hasks := halike.verifyScript id job.context.input.unlockingScript
    job.context.ownCoin.lockingScript
  exact (hasks.agrees ((), start) [] rfl).resolve_left id

/-! ## One spend after the other -/

/-- The operations of the first job, and then those of the others, whose numbers go up by one. -/
def afterFirst (ops : List CacheOp) (trace : List (Nat × CacheOp)) : List (Nat × CacheOp) :=
  ops.map (fun op ↦ (0, op)) ++ trace.map fun p ↦ (p.1 + 1, p.2)

theorem ownOps_zero_afterFirst (ops : List CacheOp) (trace : List (Nat × CacheOp)) :
    ownOps 0 (afterFirst ops trace) = ops := by
  have hfirst : ownOps 0 (ops.map fun op ↦ (0, op)) = ops := by
    induction ops with
    | nil => rfl
    | cons op rest ih => rw [List.map_cons, ownOps_cons, if_pos rfl, ih]
  have hothers : ownOps 0 (trace.map fun p ↦ (p.1 + 1, p.2)) = [] := by
    induction trace with
    | nil => rfl
    | cons p rest ih => rw [List.map_cons, ownOps_cons, if_neg (Nat.succ_ne_zero _), ih]
  rw [afterFirst, ownOps_append, hfirst, hothers, List.append_nil]

theorem ownOps_succ_afterFirst (index : Nat) (ops : List CacheOp) (trace : List (Nat × CacheOp)) :
    ownOps (index + 1) (afterFirst ops trace) = ownOps index trace := by
  have hfirst : ownOps (index + 1) (ops.map fun op ↦ (0, op)) = [] := by
    induction ops with
    | nil => rfl
    | cons op rest ih => rw [List.map_cons, ownOps_cons, if_neg (Nat.succ_ne_zero _).symm, ih]
  have hothers : ownOps (index + 1) (trace.map fun p ↦ (p.1 + 1, p.2)) = ownOps index trace := by
    induction trace with
    | nil => rfl
    | cons p rest ih => rw [List.map_cons, ownOps_cons, ownOps_cons, ih]; simp
  rw [afterFirst, ownOps_append, hfirst, hothers, List.nil_append]

namespace Interleaves

theorem nil (start : SignatureCache) : Interleaves [] start [] start [] where
  performs := rfl
  owner_lt _ hp := by cases hp
  length_answers := rfl
  runs _ _ hjob := by cases hjob

/-- A job that runs before all others, alone. -/
theorem cons {job : SpendJob} {jobs : List SpendJob} {start middle finish : SignatureCache}
    {replies : Replies} {trace : List (Nat × CacheOp)} {answers : List (Except Halt Nat)}
    (hops : start.performAll? (job.run replies).2 = some middle)
    (h : Interleaves jobs middle trace finish answers) :
    Interleaves (job :: jobs) start (afterFirst (job.run replies).2 trace) finish
      ((job.run replies).1 :: answers) where
  performs := by
    have hmap : (afterFirst (job.run replies).2 trace).map Prod.snd =
        (job.run replies).2 ++ trace.map Prod.snd := by
      unfold afterFirst
      rw [List.map_append, List.map_map, List.map_map]
      congr 1
      exact List.map_id _
    rw [hmap, SignatureCache.performAll?_concat hops]
    exact h.performs
  owner_lt p hp := by
    unfold afterFirst at hp
    rw [List.mem_append, List.mem_map, List.mem_map] at hp
    rcases hp with ⟨op, -, rfl⟩ | ⟨q, hq, rfl⟩
    · exact Nat.zero_lt_succ _
    · exact Nat.succ_lt_succ (h.owner_lt q hq)
  length_answers := congrArg (· + 1) h.length_answers
  runs index other hjob := by
    cases index with
    | zero =>
      cases hjob
      exact ⟨replies, _, rfl, Prod.ext rfl (ownOps_zero_afterFirst _ _).symm⟩
    | succ index =>
      rw [ownOps_succ_afterFirst]
      exact h.runs index other hjob

end Interleaves

/-- Jobs that are run in turn on a cache of their own. -/
def runInTurn (jobs : List SpendJob) :
    StateM (Unit × SignatureCache) (List (Except Halt Nat)) :=
  jobs.mapM fun job ↦ job.context.verify (.caching job.checker job.store) job.flags

/-- To run jobs in turn is one of the ways in which their operations can happen. -/
theorem exists_interleaves_runInTurn (jobs : List SpendJob) (start : SignatureCache) :
    ∃ trace, Interleaves jobs start trace ((runInTurn jobs).run ((), start)).2.2
      ((runInTurn jobs).run ((), start)).1 := by
  induction jobs generalizing start with
  | nil => exact ⟨[], .nil start⟩
  | cons job jobs ih =>
    obtain ⟨hanswer, hops⟩ := job.run_ownReplies start
    obtain ⟨trace, htrace⟩ := ih
      ((job.context.verify (.caching job.checker job.store) job.flags).run ((), start)).2.2
    refine ⟨afterFirst (job.run (ownReplies start job.store)).2 trace, ?_⟩
    have hcons := Interleaves.cons hops htrace
    rw [← hanswer] at hcons
    unfold runInTurn at hcons ⊢
    rw [List.mapM_cons]
    exact hcons

end UtxoConsensus
