import UtxoConsensus.Proofs.Spend.CuckooSet

/-!
# When a signature cache can be trusted

A cache is asked about a signature by a hash of the message, the key and the signature, the latter
two one after the other and without their lengths. Runs of calls that share a cache keep an invariant:
whatever is stored is the hash of an earlier call that the inner checker accepted. A hit is therefore
right unless SHA-256 collides, or the bytes of a key and a signature can be cut in two places with
different answers. The main statement says that the latter is the exact condition: on the calls of a
given kind the cache is transparent if and only if no such pair of calls is of that kind.
-/

namespace UtxoConsensus

/-- Two different strings of the list have the same hash. -/
def Digest.Collides (strings : List Bytes) : Prop :=
  ∃ a ∈ strings, ∃ b ∈ strings, a ≠ b ∧ sha256 a = sha256 b

theorem Digest.not_collides_pair (a : Bytes) : ¬ Collides [a, a] := by
  rintro ⟨b, hb, c, hc, hne, _⟩
  simp only [List.mem_cons, List.not_mem_nil, or_false, or_self] at hb hc
  exact hne (hb.trans hc.symm)

/-- Two strings with different hashes do not collide. -/
theorem Digest.not_collides_of_two {a b : Bytes} (hne : sha256 a ≠ sha256 b) {strings : List Bytes}
    (hstrings : ∀ s ∈ strings, s = a ∨ s = b) : ¬ Collides strings := by
  rintro ⟨c, hc, d, hd, hcd, hsame⟩
  rcases hstrings c hc with rfl | rfl <;> rcases hstrings d hd with rfl | rfl
  · exact hcd rfl
  · exact hne hsame
  · exact hne hsame.symm
  · exact hcd rfl

/-- What a verifier is asked. -/
structure SignedMessage where
  sig : Bytes
  key : Bytes
  message : Hash256
deriving DecidableEq

namespace SignedMessage

/-- The string whose hash stands for the question in a cache. -/
def preimage (nonce : Hash256) (t : SignedMessage) : Bytes :=
  nonce.bytes ++ t.message.bytes ++ t.key ++ t.sig

/-- The lengths of the nonce and of the message are fixed, that of the key is not. -/
theorem preimage_eq_iff {nonce : Hash256} {t u : SignedMessage} :
    t.preimage nonce = u.preimage nonce ↔
      t.message = u.message ∧ t.key ++ t.sig = u.key ++ u.sig := by
  unfold preimage
  rw [List.append_assoc, List.append_assoc, List.append_assoc, List.append_assoc,
    List.append_cancel_left_eq]
  constructor
  · intro h
    have hlength : t.message.bytes.length = u.message.bytes.length :=
      t.message.length_bytes.trans u.message.length_bytes.symm
    obtain ⟨hmessage, hrest⟩ := List.append_inj h hlength
    refine ⟨?_, hrest⟩
    cases hm : t.message
    cases hn : u.message
    simpa [hm, hn] using hmessage
  · rintro ⟨hmessage, hrest⟩
    rw [hmessage, hrest]

end SignedMessage

/-- The inner answers depend on nothing but the question, whatever else the checker keeps. -/
def Checker.Decides (k : Checker σ) (v : SignedMessage → Bool) : Prop :=
  ∀ (t : SignedMessage) (state : σ),
    ((k.verifySignature t.sig t.key t.message).run state).1 = v t

/-! ## One call -/

namespace SignatureCache

/-- An entry is the hash of the nonce and the question. -/
theorem entry_eq (c : SignatureCache) (t : SignedMessage) :
    c.entry t.message t.key t.sig = Digest.sha256 (t.preimage c.nonce) := rfl

@[simp] theorem nonce_get (c : SignatureCache) (entry : Hash256) (erase : Bool) :
    (c.get entry erase).2.nonce = c.nonce := rfl

@[simp] theorem nonce_insert (c : SignatureCache) (entry : Hash256) :
    (c.insert entry).nonce = c.nonce := rfl

@[simp] theorem entry_insert (c : SignatureCache) (entry : Hash256) (message : Hash256)
    (key sig : Bytes) : (c.insert entry).entry message key sig = c.entry message key sig := rfl

/-- All that is stored are entries of good questions. -/
def HoldsOnly (c : SignatureCache) (good : SignedMessage → Prop) : Prop :=
  ∀ entry, c.set.Stored entry → ∃ t, good t ∧ entry = Digest.sha256 (t.preimage c.nonce)

@[simp] theorem nonce_ofMiB (nonce : Hash256) (mib : Nat) : (ofMiB nonce mib).nonce = nonce := rfl

theorem holdsOnly_ofMiB (nonce : Hash256) (mib : Nat) (good : SignedMessage → Prop) :
    (ofMiB nonce mib).HoldsOnly good :=
  fun entry h ↦ absurd h (CuckooSet.not_stored_withCapacity _ entry)

theorem HoldsOnly.mono {c : SignatureCache} {good better : SignedMessage → Prop}
    (h : c.HoldsOnly better) (himp : ∀ t, better t → good t) : c.HoldsOnly good := by
  intro entry hstored
  obtain ⟨t, ht, heq⟩ := h entry hstored
  exact ⟨t, himp t ht, heq⟩

/-- A look-up adds no entry. -/
theorem HoldsOnly.get {c : SignatureCache} {good : SignedMessage → Prop} (h : c.HoldsOnly good)
    (entry : Hash256) (erase : Bool) : (c.get entry erase).2.HoldsOnly good := by
  intro old hstored
  exact h old ((CuckooSet.stored_contains_snd _ _ _ _).1 hstored)

/-- A good answer may be inserted. -/
theorem HoldsOnly.insert {c : SignatureCache} {good : SignedMessage → Prop} (h : c.HoldsOnly good)
    {t : SignedMessage} (ht : good t) :
    (c.insert (c.entry t.message t.key t.sig)).HoldsOnly good := by
  intro old hstored
  rcases CuckooSet.stored_insert hstored with rfl | hold
  · exact ⟨t, ht, rfl⟩
  · exact h old hold

/-- A hit comes from a good question with the same hash. -/
theorem HoldsOnly.good_of_hit {c : SignatureCache} {good : SignedMessage → Prop}
    (h : c.HoldsOnly good) {t : SignedMessage} {erase : Bool}
    (hit : (c.get (c.entry t.message t.key t.sig) erase).1 = true) :
    ∃ u, good u ∧ Digest.sha256 (t.preimage c.nonce) = Digest.sha256 (u.preimage c.nonce) :=
  h _ (CuckooSet.stored_of_contains hit)

/-- A new cache finds nothing. -/
theorem get_ofMiB (nonce : Hash256) (mib : Nat) (entry : Hash256) (erase : Bool) :
    ((ofMiB nonce mib).get entry erase).1 = false := by
  rw [Bool.eq_false_iff]
  intro hit
  exact CuckooSet.not_stored_withCapacity _ entry (CuckooSet.stored_of_contains hit)

@[simp] theorem get_snd_keep (c : SignatureCache) (entry : Hash256) :
    (c.get entry false).2 = c := by
  simp [get]

/-- A look-up that misses leaves the cache as it is. -/
theorem get_snd_of_miss {c : SignatureCache} {entry : Hash256} {erase : Bool}
    (miss : (c.get entry erase).1 = false) : (c.get entry erase).2 = c := by
  unfold get CuckooSet.contains at miss ⊢
  split at miss
  · cases miss
  · rfl

/-- What is inserted first is found. -/
theorem get_insert_ofMiB (nonce : Hash256) (mib : Nat) (entry : Hash256) (erase : Bool) :
    (((ofMiB nonce mib).insert entry).get entry erase).1 = true := by
  obtain ⟨location, hmem⟩ := List.exists_mem_of_ne_nil _ (CuckooSet.locations_ne_nil _ entry)
  refine CuckooSet.contains_insert_of_free hmem ?_ erase
  rw [Bool.or_eq_true]
  exact .inl (CuckooSet.isFree_withCapacity _ location)

/-- One entry in a new cache is not taken for another. -/
theorem get_insert_ofMiB_of_ne (nonce : Hash256) (mib : Nat) {entry other : Hash256} (hne : other ≠ entry)
    (erase : Bool) : (((ofMiB nonce mib).insert entry).get other erase).1 = false := by
  rw [Bool.eq_false_iff]
  intro hit
  rcases CuckooSet.stored_insert (CuckooSet.stored_of_contains hit) with heq | hold
  · exact hne heq
  · exact CuckooSet.not_stored_withCapacity _ other hold

end SignatureCache

namespace Checker

/-- A hit is an answer, and the checker is not asked. -/
theorem cachedVerify_of_hit (inner : Bytes → Bytes → Hash256 → StateM σ Bool) (store : Bool)
    (state : σ) (t : SignedMessage) (cache : SignatureCache)
    (hit : (cache.get (cache.entry t.message t.key t.sig) !store).1 = true) :
    (cachedVerify inner store t.sig t.key t.message).run (state, cache) =
      (true, (state, (cache.get (cache.entry t.message t.key t.sig) !store).2)) := by
  unfold cachedVerify
  simp only [StateT.run_bind, StateT.run_get, pure_bind, hit, if_true]
  rfl

/-- After a miss the checker is asked, and a good answer is kept if the caller wants it. -/
theorem cachedVerify_of_miss (inner : Bytes → Bytes → Hash256 → StateM σ Bool) (store : Bool)
    (state : σ) (t : SignedMessage) (cache : SignatureCache)
    (miss : (cache.get (cache.entry t.message t.key t.sig) !store).1 = false) :
    (cachedVerify inner store t.sig t.key t.message).run (state, cache) =
      (((inner t.sig t.key t.message).run state).1, (((inner t.sig t.key t.message).run state).2,
        if ((inner t.sig t.key t.message).run state).1 && store then
          (cache.get (cache.entry t.message t.key t.sig) !store).2.insert
            (cache.entry t.message t.key t.sig)
        else (cache.get (cache.entry t.message t.key t.sig) !store).2)) := by
  unfold cachedVerify
  simp only [StateT.run_bind, StateT.run_get, pure_bind, miss, Bool.false_eq_true, if_false]
  rfl

/-- One call of a cached verifier, on a cache that holds only accepted questions of some kind. The
answer is the one of the inner verifier, or that to an accepted question with the same hash. -/
theorem cachedVerify_spec {inner : Checker σ} {v : SignedMessage → Bool} (hv : inner.Decides v)
    (store : Bool) {asked : SignedMessage → Prop} {t : SignedMessage} (ht : asked t) (state : σ)
    {cache : SignatureCache} (hcache : cache.HoldsOnly fun u ↦ asked u ∧ v u = true) :
    let r := (cachedVerify inner.verifySignature store t.sig t.key t.message).run (state, cache)
    r.2.2.nonce = cache.nonce ∧ (r.2.2.HoldsOnly fun u ↦ asked u ∧ v u = true) ∧
      (r.1 = v t ∨ r.1 = true ∧ ∃ u, (asked u ∧ v u = true) ∧
        Digest.sha256 (t.preimage cache.nonce) = Digest.sha256 (u.preimage cache.nonce)) := by
  have hfound := hcache.get (cache.entry t.message t.key t.sig) (!store)
  cases hit : (cache.get (cache.entry t.message t.key t.sig) !store).1 with
  | true =>
    rw [cachedVerify_of_hit _ store state t cache hit]
    exact ⟨rfl, hfound, .inr ⟨rfl, hcache.good_of_hit hit⟩⟩
  | false =>
    rw [cachedVerify_of_miss _ store state t cache hit, hv t state]
    by_cases hgood : (v t && store) = true
    · rw [if_pos hgood]
      exact ⟨rfl, hfound.insert ⟨ht, (Bool.and_eq_true_iff.1 hgood).1⟩, .inl rfl⟩
    · rw [if_neg hgood]
      exact ⟨rfl, hfound, .inl rfl⟩

end Checker

/-! ## Runs of calls -/

structure CachedCall where
  /-- Is an accepted signature to be remembered? -/
  store : Bool
  question : SignedMessage
deriving DecidableEq

/-- The answers to calls that are made one after the other and share a cache. -/
def cachedAnswers (inner : Checker σ) (calls : List CachedCall) :
    StateM (σ × SignatureCache) (List Bool) :=
  calls.mapM fun call ↦
    (inner.caching call.store).verifySignature call.question.sig call.question.key
      call.question.message

theorem cachedAnswers_nil (inner : Checker σ) (start : σ × SignatureCache) :
    (cachedAnswers inner []).run start = ([], start) := rfl

theorem cachedAnswers_cons (inner : Checker σ) (call : CachedCall) (calls : List CachedCall)
    {start : σ × SignatureCache} {first : Bool × (σ × SignatureCache)}
    (h : (Checker.cachedVerify inner.verifySignature call.store call.question.sig call.question.key
      call.question.message).run start = first) :
    ((cachedAnswers inner (call :: calls)).run start).1 =
      first.1 :: ((cachedAnswers inner calls).run first.2).1 := by
  unfold cachedAnswers
  rw [← h, List.mapM_cons]
  rfl

/-- The run lemma: where questions with the same string have the same answer, and no strings
collide, a run that begins with a sound cache is answered as the inner verifier would. -/
theorem cachedAnswers_eq {inner : Checker σ} {v : SignedMessage → Bool} (hv : inner.Decides v)
    {nonce : Hash256} {asked : SignedMessage → Prop}
    (hcut : ∀ t u, asked t → asked u → t.preimage nonce = u.preimage nonce → v t = v u)
    (hinj : ∀ t u, asked t → asked u →
      Digest.sha256 (t.preimage nonce) = Digest.sha256 (u.preimage nonce) →
        t.preimage nonce = u.preimage nonce)
    (calls : List CachedCall) (hcalls : ∀ call ∈ calls, asked call.question) (state : σ)
    {cache : SignatureCache} (hnonce : cache.nonce = nonce)
    (hcache : cache.HoldsOnly fun u ↦ asked u ∧ v u = true) :
    ((cachedAnswers inner calls).run (state, cache)).1 = calls.map fun call ↦ v call.question := by
  induction calls generalizing state cache with
  | nil => rfl
  | cons call calls ih =>
    have ht : asked call.question := hcalls call List.mem_cons_self
    obtain ⟨hnonce', hcache', hanswer⟩ :=
      Checker.cachedVerify_spec hv call.store ht state hcache
    have hfirst := hanswer.elim id fun ⟨hhit, u, ⟨hu, hgood⟩, hhash⟩ ↦ by
      rw [hnonce] at hhash
      rw [hhit, hcut _ u ht hu (hinj _ u ht hu hhash), hgood]
    rw [cachedAnswers_cons inner call calls rfl, List.map_cons]
    exact congrArg₂ _ hfirst (ih (fun c hc ↦ hcalls c (List.mem_cons_of_mem _ hc)) _
      (hnonce'.trans hnonce) hcache')

/-- A fresh cache that has stored one question says yes to every other one with the same string. -/
theorem cachedAnswers_of_same_preimage {inner : Checker σ} {v : SignedMessage → Bool}
    (hv : inner.Decides v) {nonce : Hash256} {t u : SignedMessage}
    (hsame : t.preimage nonce = u.preimage nonce) (ht : v t = true) (store : Bool) (mib : Nat)
    (state : σ) :
    ((cachedAnswers inner [⟨true, t⟩, ⟨store, u⟩]).run (state, .ofMiB nonce mib)).1 =
      [true, true] := by
  have hentry : (SignatureCache.ofMiB nonce mib).entry u.message u.key u.sig =
      (SignatureCache.ofMiB nonce mib).entry t.message t.key t.sig := by
    rw [SignatureCache.entry_eq, SignatureCache.entry_eq, SignatureCache.nonce_ofMiB, hsame]
  let fresh := SignatureCache.ofMiB nonce mib
  let filled := fresh.insert (fresh.entry t.message t.key t.sig)
  have hfirst := Checker.cachedVerify_of_miss inner.verifySignature true state t fresh
    (SignatureCache.get_ofMiB nonce mib _ _)
  rw [Bool.not_true, SignatureCache.get_snd_keep, hv t state, ht, Bool.and_self, if_pos rfl] at hfirst
  have hfound : (filled.get (filled.entry u.message u.key u.sig) !store).1 = true := by
    rw [SignatureCache.entry_insert, hentry]
    exact SignatureCache.get_insert_ofMiB nonce mib _ _
  have hsecond := fun state ↦
    Checker.cachedVerify_of_hit inner.verifySignature store state u filled hfound
  rw [cachedAnswers_cons inner ⟨true, t⟩ _ hfirst, cachedAnswers_cons inner ⟨store, u⟩ _ (hsecond _),
    cachedAnswers_nil]

/-- The exact condition for a cache to be transparent on the questions of some kind. Every run of calls
that asks only such questions, on any fresh cache, is answered as the inner verifier would answer
unless SHA-256 collides in the run, if and only if the inner verifier never tells apart two of these
questions that have the same message and the same bytes of key and signature together. -/
theorem cachedAnswers_eq_iff {inner : Checker σ} {v : SignedMessage → Bool} (hv : inner.Decides v)
    (state : σ) (asked : SignedMessage → Prop) :
    (∀ (nonce : Hash256) (mib : Nat) (calls : List CachedCall),
      (∀ call ∈ calls, asked call.question) →
      ((cachedAnswers inner calls).run (state, .ofMiB nonce mib)).1 =
          calls.map (fun call ↦ v call.question) ∨
        Digest.Collides (calls.map fun call ↦ call.question.preimage nonce)) ↔
    ∀ t u, asked t → asked u → t.message = u.message → t.key ++ t.sig = u.key ++ u.sig →
      v t = v u := by
  constructor
  · intro htransparent t u ht hu hmessage hbytes
    have hsame : t.preimage .zero = u.preimage .zero :=
      SignedMessage.preimage_eq_iff.2 ⟨hmessage, hbytes⟩
    -- Neither order of the two questions can be answered wrongly.
    have haccept (t u : SignedMessage) (ht : asked t) (hu : asked u)
        (hsame : t.preimage .zero = u.preimage .zero) (hgood : v t = true) : v u = true := by
      have hrun := cachedAnswers_of_same_preimage hv hsame hgood true 0 state
      have hasked : ∀ call ∈ [CachedCall.mk true t, ⟨true, u⟩], asked call.question := by
        simp [ht, hu]
      rcases htransparent .zero 0 _ hasked with hanswers | hcollides
      · rw [hrun, List.map_cons, List.map_cons, List.map_nil] at hanswers
        exact (List.cons.inj (List.cons.inj hanswers).2).1.symm
      · rw [List.map_cons, List.map_cons, List.map_nil, hsame] at hcollides
        exact absurd hcollides (Digest.not_collides_pair _)
    exact Bool.eq_iff_iff.2 ⟨haccept t u ht hu hsame, haccept u t hu ht hsame.symm⟩
  · intro hcut nonce mib calls hasked
    by_cases hcollides : Digest.Collides (calls.map fun call ↦ call.question.preimage nonce)
    · exact .inr hcollides
    · left
      -- Only the questions of this run matter for the invariant of the cache.
      let inRun (t : SignedMessage) : Prop := ∃ call ∈ calls, call.question = t
      have hcut' : ∀ t u, inRun t → inRun u → t.preimage nonce = u.preimage nonce → v t = v u := by
        rintro _ _ ⟨c, hc, rfl⟩ ⟨d, hd, rfl⟩ hsame
        obtain ⟨hmessage, hbytes⟩ := SignedMessage.preimage_eq_iff.1 hsame
        exact hcut _ _ (hasked c hc) (hasked d hd) hmessage hbytes
      refine cachedAnswers_eq hv hcut' ?_ calls (fun call hcall ↦ ⟨call, hcall, rfl⟩) state rfl
        (SignatureCache.holdsOnly_ofMiB nonce mib _)
      · rintro _ _ ⟨c, hc, rfl⟩ ⟨d, hd, rfl⟩ hhash
        exact Classical.byContradiction fun hne ↦
          hcollides ⟨_, List.mem_map_of_mem hc, _, List.mem_map_of_mem hd, hne, hhash⟩

/-- Questions under keys of one length are told apart by their strings, so that the cache in front
of the verifier of the ledger is transparent on them. -/
theorem cachedAnswers_compressed_keys :
    Checker.base.Decides (fun t ↦ Curve.verifySignature t.sig t.key t.message) ∧
      ∀ (nonce : Hash256) (mib : Nat) (calls : List CachedCall),
        (∀ call ∈ calls, call.question.key.length = Curve.compressedKeySize) →
        ((cachedAnswers Checker.base calls).run ((), .ofMiB nonce mib)).1 =
            calls.map (fun call ↦ Curve.verifySignature call.question.sig call.question.key
              call.question.message) ∨
          Digest.Collides (calls.map fun call ↦ call.question.preimage nonce) := by
  have hbase : Checker.base.Decides (fun t ↦ Curve.verifySignature t.sig t.key t.message) :=
    fun _ _ ↦ rfl
  refine ⟨hbase, (cachedAnswers_eq_iff hbase ()
    fun t ↦ t.key.length = Curve.compressedKeySize).2 ?_⟩
  intro t u ht hu hmessage hbytes
  obtain ⟨hkey, hsig⟩ := List.append_inj hbytes (ht.trans hu.symm)
  rw [hmessage, hkey, hsig]

/-- A checker without a transaction that decides as told. -/
def Checker.deciding (v : SignedMessage → Bool) : Checker Unit :=
  { Checker.base with verifySignature := fun sig key message ↦ return v ⟨sig, key, message⟩ }

/-- A verifier that accepts the signature 1 under the key 2 and nothing else: behind a cache it also
accepts the empty signature under the key 2, 1. -/
theorem cachedAnswers_wrong_cut :
    let v : SignedMessage → Bool := fun t ↦ t.sig == [1] && t.key == [2]
    let calls : List CachedCall :=
      [⟨true, ⟨[1], [2], .zero⟩⟩, ⟨true, ⟨[], [2, 1], .zero⟩⟩]
    (Checker.deciding v).Decides v ∧
      ((cachedAnswers (.deciding v) calls).run ((), .ofMiB .zero 1)).1 = [true, true] ∧
      calls.map (fun call ↦ v call.question) = [true, false] ∧
      ¬ Digest.Collides (calls.map fun call ↦ call.question.preimage .zero) := by
  intro v calls
  have hv : (Checker.deciding v).Decides v := fun _ _ ↦ rfl
  have hsame : SignedMessage.preimage .zero ⟨[1], [2], .zero⟩ =
      SignedMessage.preimage .zero ⟨[], [2, 1], .zero⟩ :=
    SignedMessage.preimage_eq_iff.2 ⟨rfl, rfl⟩
  refine ⟨hv, cachedAnswers_of_same_preimage hv hsame rfl true 1 (), rfl, ?_⟩
  rw [List.map_cons, List.map_cons, List.map_nil, hsame]
  exact Digest.not_collides_pair _

end UtxoConsensus
