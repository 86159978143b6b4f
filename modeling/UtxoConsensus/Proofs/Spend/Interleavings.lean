import UtxoConsensus.Proofs.Spend.SharedCache
import UtxoConsensus.Spend.Inputs

/-!
# Spends that share a cache

Several spends are verified on one cache, and their operations on it happen in any order. Whatever the
order, and whatever spends were verified on the cache before and under whatever rules, the cache holds
only entries of questions that were verified. So a hit is right unless SHA-256 collides, as long as it
is clear from the bytes which key a question is about, and under strict encoding it is. Each spend is
then answered as if it were verified on its own.
-/

namespace UtxoConsensus

/-! ## Single operations -/

namespace SignatureCache

/-- One operation of any job. -/
theorem HoldsOnly.perform? {c c' : SignatureCache} {good : SignedMessage → Prop}
    (hc : c.HoldsOnly good) {op : CacheOp} (hop : ∀ t, op = .insert t → good t)
    (hperform : c.perform? op = some c') :
    c'.nonce = c.nonce ∧ c'.HoldsOnly good ∧ ∀ t erase, op = .get t erase true →
      ∃ u, good u ∧ Digest.sha256 (t.preimage c.nonce) = Digest.sha256 (u.preimage c.nonce) := by
  cases op with
  | get t erase hit =>
    change (if (c.lookUp t erase).1 = hit then some (c.lookUp t erase).2 else none) = _ at hperform
    split at hperform
    · next hhit =>
      cases hperform
      refine ⟨rfl, hc.get _ _, ?_⟩
      rintro u _ ⟨⟩
      exact hc.good_of_hit hhit
    · cases hperform
  | insert t =>
    cases hperform
    refine ⟨rfl, hc.insert (hop t rfl), ?_⟩
    rintro _ _ ⟨⟩

/-- A cache whose insertions are good holds what is good, and hits come from good questions. -/
theorem HoldsOnly.performAll? {c c' : SignatureCache} {good : SignedMessage → Prop}
    (hc : c.HoldsOnly good) {ops : List CacheOp} (hops : ∀ t, .insert t ∈ ops → good t)
    (hperform : c.performAll? ops = some c') :
    c'.nonce = c.nonce ∧ c'.HoldsOnly good ∧ ∀ t erase, .get t erase true ∈ ops →
      ∃ u, good u ∧ Digest.sha256 (t.preimage c.nonce) = Digest.sha256 (u.preimage c.nonce) := by
  induction ops generalizing c with
  | nil =>
    cases hperform
    exact ⟨rfl, hc, fun _ _ hmem ↦ by cases hmem⟩
  | cons op ops ih =>
    unfold SignatureCache.performAll? at hperform
    rw [List.foldlM_cons] at hperform
    obtain ⟨middle, hfirst, hrest⟩ := Option.bind_eq_some_iff.mp hperform
    obtain ⟨hnonce, hmiddle, hhit⟩ := hc.perform?
      (fun t heq ↦ hops t (heq ▸ List.mem_cons_self)) hfirst
    obtain ⟨hnonce', hlast, hhits⟩ := ih hmiddle
      (fun t ht ↦ hops t (List.mem_cons_of_mem op ht)) hrest
    refine ⟨hnonce'.trans hnonce, hlast, fun t erase hmem ↦ ?_⟩
    rcases List.mem_cons.mp hmem with heq | hmem
    · exact hhit t erase heq.symm
    · rw [← hnonce]
      exact hhits t erase hmem

end SignatureCache

/-! ## Orders of operations -/

/-- The verification of one input, as one of several on a cache. -/
structure SpendJob where
  context : SpendContext
  shared : Option SharedHashes
  flags : ScriptFlags
  /-- Are good signatures to be remembered? -/
  store : Bool

namespace SpendJob

def checker (job : SpendJob) : Checker Unit :=
  .transaction job.context job.shared

/-- The answer without a cache. -/
def alone (job : SpendJob) : Except Halt Nat :=
  ((job.context.verify job.checker job.flags).run ()).1

/-- The answer and the operations, given what the cache replies. -/
def run (job : SpendJob) (replies : Replies) : Except Halt Nat × List CacheOp :=
  (job.context.verify (.recorded job.checker job.store replies) job.flags).run []

end SpendJob

/-- The operations of one job among those of all. -/
def ownOps (index : Nat) (trace : List (Nat × CacheOp)) : List CacheOp :=
  trace.filterMap fun (owner, op) ↦ if owner = index then some op else none

theorem ownOps_cons (index : Nat) (p : Nat × CacheOp) (trace : List (Nat × CacheOp)) :
    ownOps index (p :: trace) =
      if p.1 = index then p.2 :: ownOps index trace else ownOps index trace := by
  unfold ownOps
  rw [List.filterMap_cons]
  by_cases hown : p.1 = index <;> simp [hown]

theorem ownOps_append (index : Nat) (trace trace' : List (Nat × CacheOp)) :
    ownOps index (trace ++ trace') = ownOps index trace ++ ownOps index trace' :=
  List.filterMap_append

/-- What the cache is asked about, in order. -/
def questions (trace : List (Nat × CacheOp)) : List SignedMessage :=
  trace.map fun p ↦ p.2.question

theorem mem_questions {trace : List (Nat × CacheOp)} {op : CacheOp}
    (hop : op ∈ trace.map Prod.snd) : op.question ∈ questions trace := by
  obtain ⟨p, hp, rfl⟩ := List.mem_map.mp hop
  exact List.mem_map.mpr ⟨p, hp, rfl⟩

/-- The jobs are run on a cache, their operations happening in the order of `trace`. Each operation has
the answer that the cache gives at that time, and each job does the operations that it does when it is
given these answers. -/
structure Interleaves (jobs : List SpendJob) (start : SignatureCache) (trace : List (Nat × CacheOp))
    (finish : SignatureCache) (answers : List (Except Halt Nat)) : Prop where
  performs : start.performAll? (trace.map Prod.snd) = some finish
  owner_lt : ∀ p ∈ trace, p.1 < jobs.length
  length_answers : answers.length = jobs.length
  runs : ∀ index job, jobs[index]? = some job →
    ∃ replies answer, answers[index]? = some answer ∧ job.run replies = (answer, ownOps index trace)

/-- The caches that can come about, with all that they were asked: fresh ones, and those on which jobs
have been run. -/
inductive Reached : SignatureCache → List SignedMessage → Prop
  | fresh (nonce : Hash256) (mib : Nat) : Reached (.ofMiB nonce mib) []
  | run {start finish : SignatureCache} {asked : List SignedMessage} {jobs : List SpendJob}
      {trace : List (Nat × CacheOp)} {answers : List (Except Halt Nat)} (hstart : Reached start asked)
      (hrun : Interleaves jobs start trace finish answers) :
      Reached finish (asked ++ questions trace)

/-! ## What jobs do to a cache -/

/-- A question that is answered with yes without a cache. -/
def SignedMessage.IsSigned (t : SignedMessage) : Prop :=
  Curve.verifySignature t.sig t.key t.message = true

namespace Interleaves

variable {jobs : List SpendJob} {start finish : SignatureCache} {trace : List (Nat × CacheOp)}
  {answers : List (Except Halt Nat)}

/-- Every job inserts only what it has verified. -/
theorem recordSound (h : Interleaves jobs start trace finish answers) {index : Nat} {job : SpendJob}
    (hjob : jobs[index]? = some job) : RecordSound job.checker job.flags (ownOps index trace) := by
  obtain ⟨replies, answer, -, hrun⟩ := h.runs index job hjob
  have hsound : RecordSound job.checker job.flags (job.run replies).2 :=
    recordSound_verifyScript job.checker job.flags job.store replies _ _
  rwa [hrun] at hsound

theorem mem_ownOps {index : Nat} {op : CacheOp} :
    op ∈ ownOps index trace ↔ (index, op) ∈ trace := by
  unfold ownOps
  rw [List.mem_filterMap]
  constructor
  · rintro ⟨⟨owner, own⟩, hmem, hsome⟩
    dsimp only at hsome
    split at hsome
    · next howner =>
      cases hsome
      rwa [← howner]
    · cases hsome
  · intro hmem
    exact ⟨(index, op), hmem, if_pos rfl⟩

/-- What is inserted was verified. -/
theorem isSigned_of_insert (h : Interleaves jobs start trace finish answers) {t : SignedMessage}
    (ht : .insert t ∈ trace.map Prod.snd) : t.IsSigned := by
  obtain ⟨⟨index, op⟩, hmem, rfl⟩ := List.mem_map.mp ht
  have hlt := h.owner_lt _ hmem
  have hsound := h.recordSound (List.getElem?_eq_getElem hlt)
  exact hsound.accepts_of_insert t (mem_ownOps.mpr hmem)

/-- Jobs on a cache that holds only signed questions leave such a cache, and hits come from signed
questions. -/
theorem holdsOnly (h : Interleaves jobs start trace finish answers) {asked : List SignedMessage}
    (hstart : start.HoldsOnly fun t ↦ t ∈ asked ∧ t.IsSigned) :
    (finish.HoldsOnly fun t ↦ t ∈ asked ++ questions trace ∧ t.IsSigned) ∧
      ∀ t erase, .get t erase true ∈ trace.map Prod.snd →
        ∃ u, (u ∈ asked ++ questions trace ∧ u.IsSigned) ∧
          Digest.sha256 (t.preimage start.nonce) = Digest.sha256 (u.preimage start.nonce) := by
  have hbefore : start.HoldsOnly fun t ↦ t ∈ asked ++ questions trace ∧ t.IsSigned :=
    hstart.mono fun t ht ↦ ⟨List.mem_append_left _ ht.1, ht.2⟩
  exact (hbefore.performAll? (fun t ht ↦ ⟨List.mem_append_right _ (mem_questions ht),
    h.isSigned_of_insert ht⟩) h.performs).2

end Interleaves

/-- A cache holds only what it was asked and what was verified. -/
theorem Reached.holdsOnly {c : SignatureCache} {asked : List SignedMessage} (h : Reached c asked) :
    c.HoldsOnly fun t ↦ t ∈ asked ∧ t.IsSigned := by
  induction h with
  | fresh nonce mib => exact SignatureCache.holdsOnly_ofMiB nonce mib _
  | run _ hrun ih => exact (hrun.holdsOnly ih).1

/-! ## What a cache does to jobs -/

/-- Two questions with the same string, one signed and the other under a key in plain form, are
equal. -/
theorem SignedMessage.eq_of_preimage_eq {nonce : Hash256} {t u : SignedMessage}
    (ht : Encoding.hasPlainKeyForm t.key = true) (hu : u.IsSigned)
    (h : t.preimage nonce = u.preimage nonce) : t = u := by
  obtain ⟨hmessage, hbytes⟩ := preimage_eq_iff.mp h
  obtain ⟨hkey, hsig⟩ := (Curve.hasKeyForm_of_hasPlainKeyForm ht).append_inj
    (Curve.hasKeyForm_of_verifySignature hu) hbytes
  cases t
  cases u
  cases hmessage
  cases hkey
  cases hsig
  rfl

namespace Interleaves

variable {jobs : List SpendJob} {start finish : SignatureCache} {asked : List SignedMessage}
  {trace : List (Nat × CacheOp)} {answers : List (Except Halt Nat)}

/-- No hit for a key in plain form is a lie, unless hashes collide. -/
theorem isSigned_of_hit (h : Interleaves jobs start trace finish answers)
    (hstart : Reached start asked)
    (hcollides : ¬ Digest.Collides ((asked ++ questions trace).map (·.preimage start.nonce)))
    {t : SignedMessage} {erase : Bool} (hhit : .get t erase true ∈ trace.map Prod.snd)
    (hplain : Encoding.hasPlainKeyForm t.key = true) : t.IsSigned := by
  obtain ⟨u, ⟨hu, hsigned⟩, hhash⟩ := (h.holdsOnly hstart.holdsOnly).2 t erase hhit
  have ht : t ∈ asked ++ questions trace := List.mem_append_right _ (mem_questions hhit)
  have hsame : t.preimage start.nonce = u.preimage start.nonce :=
    Classical.byContradiction fun hne ↦ hcollides
      ⟨_, List.mem_map_of_mem ht, _, List.mem_map_of_mem hu, hne, hhash⟩
  rw [SignedMessage.eq_of_preimage_eq hplain hsigned hsame]
  exact hsigned

/-- **Jobs on a shared cache.** Under strict encoding every job is answered as on its own, in whatever
order the operations on the cache happen, unless hashes collide. -/
theorem answers_eq (h : Interleaves jobs start trace finish answers) (hstart : Reached start asked)
    (hstrict : ∀ job ∈ jobs, (effectiveFlags job.flags).contains .strictEnc = true)
    (hcollides : ¬ Digest.Collides ((asked ++ questions trace).map (·.preimage start.nonce))) :
    answers = jobs.map SpendJob.alone := by
  apply List.ext_getElem?
  intro index
  rw [List.getElem?_map]
  cases hjob : jobs[index]? with
  | none =>
    rw [List.getElem?_eq_none_iff] at hjob
    exact List.getElem?_eq_none_iff.mpr (h.length_answers ▸ hjob)
  | some job =>
    obtain ⟨replies, answer, hanswer, hrun⟩ := h.runs index job hjob
    have hlie : ¬ HasLie job.checker (ownOps index trace) := by
      rintro ⟨t, erase, hmem, hbad⟩
      have hplain := (h.recordSound hjob).plain_of_get
        (hstrict job (List.mem_of_getElem? hjob)) t erase true hmem
      have hsigned : job.checker.accepts t = true := h.isSigned_of_hit hstart hcollides
        (List.mem_map_of_mem (mem_ownOps.mp hmem)) hplain
      rw [hsigned] at hbad
      cases hbad
    have halone : (job.run replies).1 = job.alone := by
      refine verifyScript_recorded_of_no_lie ⟨rfl, rfl, rfl, rfl, fun _ _ _ _ ↦ rfl,
        fun _ _ _ _ ↦ rfl⟩ ?_
      change ¬ HasLie job.checker (job.run replies).2
      rwa [hrun]
    rw [hanswer, Option.map_some, ← halone, hrun]

end Interleaves

end UtxoConsensus
