import Mathlib.Logic.Function.Basic
import UtxoConsensus.Proofs.ActiveChain.Histories

/-!
# Activations by several threads

A thread activates the best chain in two steps, and holds the lock in each of them but not between them:
it looks up the best entry, and it makes this entry the tip. It does not see what other threads do in
between. If another one looks up a better entry and makes it the tip, then this tip is lost. Nothing else
lowers the work of the active chain: an entry that was looked up earlier has no more work, and a chain
that ends in the tree has no more work than its best.
-/

namespace UtxoConsensus

open BlockTree (rootHeader childHeader)

/-! ## The work of the tip -/

namespace HeaderStore

def tipWork? (s : HeaderStore) : Option Nat := do
  let entry ← s.tree.get? (← s.chain.tip?)
  return entry.chainWork.toNat

variable {s s' : HeaderStore}

/-- The tip of a path is an entry of the tree. -/
theorem tip?_of_isPath (h : s.tree.IsSound) (hpath : s.chain.IsPath s.tree) (hfit : s.tree.HeightsFit) :
    s.chain.tip? = none ∨ ∃ tip entry, s.chain.tip? = some tip ∧ s.tree.get? tip = some entry := by
  rcases hpath.cases h.toIsLinked hfit with hblocks | ⟨tip, hends⟩
  · left
    unfold ActiveChain.tip?
    rw [hblocks]
    rfl
  · obtain ⟨entry, hentry, -⟩ := hends.size_eq
    exact .inr ⟨tip, entry, hends.tip?_eq, hentry⟩

/-- A tree that grows below an active chain leaves the work of its tip as it is. -/
theorem tipWork?_of_grows (h : s.tree.IsSound) (hpath : s.chain.IsPath s.tree)
    (hfit : s.tree.HeightsFit) (hgrows : BlockTree.Grows s.tree s'.tree) (hchain : s'.chain = s.chain) :
    s'.tipWork? = s.tipWork? := by
  unfold tipWork?
  rw [hchain]
  rcases tip?_of_isPath h hpath hfit with htip | ⟨tip, entry, htip, hentry⟩
  · rw [htip]
    rfl
  · rw [htip, Option.bind_eq_bind, Option.bind_some, Option.bind_some, hentry, hgrows tip entry hentry]

/-- The tip is where it was moved to. -/
theorem tip?_moveTip (h : s.tree.IsSound) (hpath : s.chain.IsPath s.tree) (hfit : s.tree.HeightsFit)
    {tip : BlockId} {entry : BlockEntry} (hentry : s.tree.get? tip = some entry) :
    (s.change (.moveTip (some tip))).chain.tip? = some tip := by
  have hblocks := ActiveChain.toList_setTip hpath h.toIsLinked hfit hentry
  exact (ActiveChain.endsAt_of_toList h.toIsLinked hfit hentry hblocks).tip?_eq

/-- A new tip counts with its own work. -/
theorem tipWork?_moveTip (h : s.tree.IsSound) (hpath : s.chain.IsPath s.tree) (hfit : s.tree.HeightsFit)
    {tip : BlockId} {entry : BlockEntry} (hentry : s.tree.get? tip = some entry) :
    (s.change (.moveTip (some tip))).tipWork? = some entry.chainWork.toNat := by
  have htree : (s.change (.moveTip (some tip))).tree = s.tree := rfl
  unfold tipWork?
  rw [tip?_moveTip h hpath hfit hentry, htree, Option.bind_eq_bind, Option.bind_some, hentry]
  rfl

/-- An active chain has no more work than any entry that all others have no more work than. -/
theorem tipWork_le {most : Nat}
    (hmost : ∀ id entry, s.tree.get? id = some entry → entry.chainWork.toNat ≤ most) :
    ∀ work, s.tipWork? = some work → work ≤ most := by
  intro work hwork
  obtain ⟨tip, -, hrest⟩ := Option.bind_eq_some_iff.mp hwork
  obtain ⟨other, hother, hother'⟩ := Option.bind_eq_some_iff.mp hrest
  cases hother'
  exact hmost tip other hother

/-- The store after a call. One that fails changes nothing. -/
def afterCall (s : HeaderStore) : Except BlockError HeaderStore → HeaderStore
  | .ok changed => changed
  | .error _ => s

theorem afterCall_acceptHeader (s : HeaderStore) (header : BlockHeader) :
    s.afterCall ((s.acceptHeader header).map Prod.snd) = s.change (.accept header) := by
  have hchange : s.change (.accept header) = ⟨(s.tree.submit header).2, s.chain⟩ := rfl
  rw [hchange]
  unfold afterCall acceptHeader BlockTree.submit
  cases s.tree.acceptHeader header <;> rfl

theorem afterCall_setTip (s : HeaderStore) (tip : BlockId) :
    s.afterCall (s.setTip tip) = s.change (.moveTip (some tip)) := by
  unfold afterCall setTip
  cases hentry : s.tree.get? tip with
  | none =>
    have hchain : s.chain.setTip s.tree (some tip) = s.chain := by
      unfold ActiveChain.setTip
      dsimp only
      rw [hentry]
    unfold change
    dsimp only
    rw [hchain]
    rfl
  | some entry => rfl

end HeaderStore

/-! ## Threads -/

/-- What a thread does while it holds the lock. -/
inductive LockedAction where
  | accept (header : BlockHeader)
  /-- The first step of an activation. -/
  | lookUp
  /-- Its second step. -/
  | switch

/-- Which threads get the lock one after the other, and what for. -/
abbrev Schedule (ι : Type) := List (ι × LockedAction)

/-- A header store that threads share, and the best entries that they have looked up and not made the
tip yet. -/
structure Threads (ι : Type) where
  store : HeaderStore
  found : ι → Option BlockId

namespace Threads

open HeaderStore

variable {ι : Type}

/-! ## Activations that overtake others -/

variable {s : Threads ι} {i : ι}

/-- A thread has looked up the best entry after `earlier`, and has not had the lock since. -/
structure LooksUp (actions : Schedule ι) (i : ι) (earlier between : Schedule ι) : Prop where
  eq_append : actions = earlier ++ (i, .lookUp) :: between
  not_mem : ∀ action, (i, action) ∉ between

/-- Some thread has activated what it has found, both steps being among the actions. -/
def HoldsActivation (actions : Schedule ι) : Prop :=
  ∃ j before earlier between after,
    actions = before ++ (j, .switch) :: after ∧ LooksUp before j earlier between

theorem looksUp_append_self (actions : Schedule ι) (i : ι) :
    LooksUp (actions ++ [(i, .lookUp)]) i actions [] :=
  ⟨rfl, fun _ ↦ List.not_mem_nil⟩

theorem LooksUp.append {actions earlier between : Schedule ι} (h : LooksUp actions i earlier between)
    {j : ι} (hne : i ≠ j) (action : LockedAction) :
    LooksUp (actions ++ [(j, action)]) i earlier (between ++ [(j, action)]) where
  eq_append := by rw [h.eq_append, List.append_assoc, List.cons_append]
  not_mem := by
    intro other hmem
    rcases List.mem_append.mp hmem with hold | hnew
    · exact h.not_mem other hold
    · exact hne (congrArg Prod.fst (List.mem_singleton.mp hnew))

theorem HoldsActivation.append {actions : Schedule ι} (h : HoldsActivation actions)
    (more : Schedule ι) : HoldsActivation (actions ++ more) := by
  obtain ⟨j, before, earlier, between, after, rfl, hlooks⟩ := h
  refine ⟨j, before, earlier, between, after ++ more, ?_, hlooks⟩
  rw [List.append_assoc, List.cons_append]

/-- What may have happened since `entry` was the best. Where the active chain has more work, it has been
activated since; where a thread has found a better entry, it has looked it up since. -/
structure IsUpTo (s : Threads ι) (entry : BlockEntry) (between : Schedule ι) : Prop where
  tip : (∀ work, s.store.tipWork? = some work → work ≤ entry.chainWork.toNat) ∨ HoldsActivation between
  found : ∀ j best, s.found j = some best → ∃ other, s.store.tree.get? best = some other ∧
    (other.chainWork.toNat ≤ entry.chainWork.toNat ∨ ∃ earlier rest, LooksUp between j earlier rest)

/-- The best entry has as much work as anything that is found in the tree. -/
theorem IsUpTo.of_most {entry : BlockEntry}
    (hmost : ∀ id other, s.store.tree.get? id = some other →
      other.chainWork.toNat ≤ entry.chainWork.toNat)
    (hfound : ∀ j id, s.found j = some id → ∃ other, s.store.tree.get? id = some other) :
    s.IsUpTo entry [] where
  tip := .inl (tipWork_le hmost)
  found := by
    intro j id hj
    obtain ⟨other, hother⟩ := hfound j id hj
    exact ⟨other, hother, .inl (hmost id other hother)⟩

/-! ## One action -/

variable [DecidableEq ι]

def start (params : Option WorkParams) : Threads ι :=
  ⟨.empty params, fun _ ↦ none⟩

/-- A thread that has looked up an entry goes on with the switch to it, and any other thread with a new
call. There is nothing to switch to in an empty tree. -/
def perform? (s : Threads ι) (i : ι) : LockedAction → Option (Threads ι)
  | .accept header =>
    if s.found i = none then
      some { s with store := s.store.afterCall ((s.store.acceptHeader header).map Prod.snd) }
    else none
  | .lookUp =>
    if s.found i = none then some { s with found := Function.update s.found i s.store.tree.best }
    else none
  | .switch =>
    (s.found i).map fun best ↦
      ⟨s.store.afterCall (s.store.setTip best), Function.update s.found i none⟩

def performAll? (s : Threads ι) (actions : Schedule ι) : Option (Threads ι) :=
  actions.foldlM (fun s step ↦ s.perform? step.1 step.2) s

theorem performAll?_cons {s s' : Threads ι} {i : ι} {action : LockedAction}
    (h : s.perform? i action = some s') (actions : Schedule ι) :
    s.performAll? ((i, action) :: actions) = s'.performAll? actions := by
  unfold performAll?
  rw [List.foldlM_cons, h]
  rfl

theorem perform?_accept {s : Threads ι} {i : ι} (hidle : s.found i = none) (header : BlockHeader) :
    s.perform? i (.accept header) = some ⟨s.store.change (.accept header), s.found⟩ := by
  unfold perform?
  dsimp only
  rw [if_pos hidle, afterCall_acceptHeader]

/-- A thread looks up the best entry, and remembers it. -/
theorem perform?_lookUp {s : Threads ι} {i : ι} (hidle : s.found i = none) :
    s.perform? i .lookUp = some ⟨s.store, Function.update s.found i s.store.tree.best⟩ :=
  if_pos hidle

/-- A thread switches to the entry that it had looked up, whatever happened since. -/
theorem perform?_switch {s : Threads ι} {i : ι} {best : BlockId} (hfound : s.found i = some best) :
    s.perform? i .switch =
      some ⟨s.store.change (.moveTip (some best)), Function.update s.found i none⟩ := by
  unfold perform?
  dsimp only
  rw [hfound, Option.map_some, afterCall_setTip]

/-- A thread that is not disturbed activates the best chain in two steps. -/
theorem performAll?_activation (s : Threads ι) {i : ι} (hidle : s.found i = none) {best : BlockId}
    (hbest : s.store.tree.best = some best) :
    s.performAll? [(i, .lookUp), (i, .switch)] =
      some { s with store := s.store.afterCall (s.store.activateBest.map Prod.snd) } := by
  have hactivate : s.store.activateBest.map Prod.snd = s.store.setTip best := by
    unfold activateBest
    rw [hbest]
    dsimp only
    cases s.store.setTip best <;> rfl
  have hidle' : Function.update s.found i none = s.found := by rw [← hidle, Function.update_eq_self]
  have hswitch := perform?_switch (s := ⟨s.store, Function.update s.found i (some best)⟩)
    (Function.update_self i (some best) s.found)
  rw [performAll?_cons (hbest ▸ perform?_lookUp hidle), performAll?_cons hswitch, hactivate,
    afterCall_setTip, Function.update_idem, hidle']
  rfl

variable {s' : Threads ι} {action : LockedAction}

/-- All that one action can do. -/
theorem perform?_cases (h : s.perform? i action = some s') :
    (∃ header, action = .accept header ∧ s.found i = none ∧
      s' = ⟨s.store.change (.accept header), s.found⟩) ∨
    (action = .lookUp ∧ s.found i = none ∧
      s' = ⟨s.store, Function.update s.found i s.store.tree.best⟩) ∨
    ∃ best, action = .switch ∧ s.found i = some best ∧
      s' = ⟨s.store.change (.moveTip (some best)), Function.update s.found i none⟩ := by
  cases action with
  | accept header =>
    obtain ⟨hidle, -⟩ := Option.ite_none_right_eq_some.mp h
    rw [perform?_accept hidle] at h
    exact .inl ⟨header, rfl, hidle, (Option.some.inj h).symm⟩
  | lookUp =>
    obtain ⟨hidle, -⟩ := Option.ite_none_right_eq_some.mp h
    rw [perform?_lookUp hidle] at h
    exact .inr (.inl ⟨rfl, hidle, (Option.some.inj h).symm⟩)
  | switch =>
    obtain ⟨best, hfound, -⟩ := Option.map_eq_some_iff.mp h
    rw [perform?_switch hfound] at h
    exact .inr (.inr ⟨best, rfl, hfound, (Option.some.inj h).symm⟩)

/-- What a thread has found after an action it had found before, or this action was its look-up. -/
theorem found_of_perform? (h : s.perform? i action = some s') {j : ι} {best : BlockId}
    (hfound : s'.found j = some best) :
    (j ≠ i ∧ s.found j = some best) ∨
      (j = i ∧ action = .lookUp ∧ s'.store = s.store ∧ s.store.tree.best = some best) := by
  rcases perform?_cases h with ⟨header, -, hidle, rfl⟩ | ⟨haction, -, rfl⟩ | ⟨_, -, -, rfl⟩
  · have hne : j ≠ i := by
      rintro rfl
      rw [hidle] at hfound
      cases hfound
    exact .inl ⟨hne, hfound⟩
  · dsimp only at hfound
    by_cases hj : j = i
    · subst hj
      rw [Function.update_self] at hfound
      exact .inr ⟨rfl, haction, rfl, hfound⟩
    · rw [Function.update_of_ne hj] at hfound
      exact .inl ⟨hj, hfound⟩
  · dsimp only at hfound
    by_cases hj : j = i
    · subst hj
      rw [Function.update_self] at hfound
      cases hfound
    · rw [Function.update_of_ne hj] at hfound
      exact .inl ⟨hj, hfound⟩

/-- What the store can become. -/
theorem store_perform? (h : s.perform? i action = some s') :
    s'.store = s.store ∨ ∃ c, s'.store = s.store.change c := by
  rcases perform?_cases h with ⟨header, -, -, rfl⟩ | ⟨-, -, rfl⟩ | ⟨best, -, -, rfl⟩
  · exact .inr ⟨.accept header, rfl⟩
  · exact .inl rfl
  · exact .inr ⟨.moveTip (some best), rfl⟩

theorem grows_perform? (h : s.perform? i action = some s') :
    BlockTree.Grows s.store.tree s'.store.tree := by
  rcases store_perform? h with hsame | ⟨c, hchange⟩
  · rw [hsame]
    exact fun _ _ hentry ↦ hentry
  · rw [hchange]
    exact grows_change s.store c

/-- No schedule removes an entry. -/
theorem grows_performAll? {actions : Schedule ι} (h : s.performAll? actions = some s') :
    BlockTree.Grows s.store.tree s'.store.tree := by
  induction actions generalizing s with
  | nil =>
    cases h
    exact fun _ _ hentry ↦ hentry
  | cons step actions ih =>
    obtain ⟨middle, hfirst, hrest⟩ := Option.bind_eq_some_iff.mp h
    intro id entry hentry
    exact ih hrest id entry (grows_perform? hfirst id entry hentry)

/-! ## What an action keeps -/

namespace IsUpTo

variable {entry : BlockEntry} {between : Schedule ι}

/-- An action changes the active chain only if it is a switch. Then the new tip is what its thread has
found. -/
theorem tip_perform? (h : s.IsUpTo entry between) (hsound : s.store.tree.IsSound)
    (hpath : s.store.chain.IsPath s.store.tree) (hfit : s.store.tree.HeightsFit)
    (hstep : s.perform? i action = some s') :
    (∀ work, s'.store.tipWork? = some work → work ≤ entry.chainWork.toNat) ∨
      HoldsActivation (between ++ [(i, action)]) := by
  have hstays : s'.store.tipWork? = s.store.tipWork? →
      (∀ work, s'.store.tipWork? = some work → work ≤ entry.chainWork.toNat) ∨
        HoldsActivation (between ++ [(i, action)]) := by
    intro hsame
    rw [hsame]
    exact h.tip.imp_right fun hholds ↦ hholds.append [(i, action)]
  rcases perform?_cases hstep with ⟨header, -, -, rfl⟩ | ⟨-, -, rfl⟩ | ⟨best, haction, hbest, rfl⟩
  · exact hstays (tipWork?_of_grows hsound hpath hfit (grows_change _ _) rfl)
  · exact hstays rfl
  · obtain ⟨other, hother, hle | ⟨earlier, rest, hlooks⟩⟩ := h.found i best hbest
    · left
      intro work hwork
      rw [tipWork?_moveTip hsound hpath hfit hother] at hwork
      exact Option.some.inj hwork ▸ hle
    · right
      rw [haction]
      exact ⟨i, between, earlier, rest, [], rfl, hlooks⟩

theorem perform? (h : s.IsUpTo entry between) (hsound : s.store.tree.IsSound)
    (hpath : s.store.chain.IsPath s.store.tree) (hfit : s.store.tree.HeightsFit)
    (hstep : s.perform? i action = some s') : s'.IsUpTo entry (between ++ [(i, action)]) where
  tip := h.tip_perform? hsound hpath hfit hstep
  found := by
    intro j best hbest
    rcases found_of_perform? hstep hbest with ⟨hne, hbefore⟩ | ⟨rfl, rfl, hstore, hlooked⟩
    · obtain ⟨other, hother, hcases⟩ := h.found j best hbefore
      refine ⟨other, grows_perform? hstep best other hother, hcases.imp_right ?_⟩
      rintro ⟨earlier, rest, hlooks⟩
      exact ⟨earlier, rest ++ [(i, action)], hlooks.append hne action⟩
    · obtain ⟨other, hother, -⟩ := hsound.isBest_of_best hlooked
      exact ⟨other, hstore ▸ hother, .inr ⟨between, [], looksUp_append_self between j⟩⟩

end IsUpTo

/-- The threads after some actions. What each has found was the best entry at its look-up. -/
structure IsOrderly (params : Option WorkParams) (actions : Schedule ι) (s : Threads ι) : Prop where
  performAll?_eq : (start params).performAll? actions = some s
  isSound : s.store.tree.IsSound
  isPath : s.store.chain.IsPath s.store.tree
  found : ∀ i best, s.found i = some best → ∃ entry earlier between before,
    s.store.tree.get? best = some entry ∧ LooksUp actions i earlier between ∧
      (start params).performAll? earlier = some before ∧ before.store.tree.best = some best ∧
        s.IsUpTo entry between

namespace IsOrderly

variable {params : Option WorkParams} {actions : Schedule ι}

theorem of_start (params : Option WorkParams) : (start params : Threads ι).IsOrderly params [] where
  performAll?_eq := rfl
  isSound := BlockTree.isSound_empty params
  isPath := ActiveChain.isPath_empty _
  found _ _ hfound := nomatch hfound

theorem performAll?_append (h : s.IsOrderly params actions) (hstep : s.perform? i action = some s') :
    (start params).performAll? (actions ++ [(i, action)]) = some s' := by
  have hrun := h.performAll?_eq
  unfold performAll? at hrun ⊢
  rw [List.foldlM_append, hrun, Option.bind_eq_bind, Option.bind_some, List.foldlM_cons, hstep]
  rfl

theorem perform? (h : s.IsOrderly params actions) (hstep : s.perform? i action = some s')
    (hfit : s'.store.tree.HeightsFit) : s'.IsOrderly params (actions ++ [(i, action)]) where
  performAll?_eq := h.performAll?_append hstep
  isSound := by
    rcases store_perform? hstep with hsame | ⟨c, hchange⟩
    · rw [hsame]
      exact h.isSound
    · rw [hchange]
      exact isSound_change h.isSound c
  isPath := by
    rcases store_perform? hstep with hsame | ⟨c, hchange⟩
    · rw [hsame]
      exact h.isPath
    · rw [hchange] at hfit ⊢
      exact isPath_change h.isSound h.isPath c hfit
  found := by
    have hgrows := grows_perform? hstep
    intro j best hbest
    rcases found_of_perform? hstep hbest with ⟨hne, hbefore⟩ | ⟨rfl, rfl, hstore, hlooked⟩
    · obtain ⟨entry, earlier, between, before, hentry, hlooks, hrun, hmost, hup⟩ := h.found j best hbefore
      exact ⟨entry, earlier, between ++ [(i, action)], before, hgrows best entry hentry,
        hlooks.append hne action, hrun, hmost,
        hup.perform? h.isSound h.isPath (hfit.of_grows hgrows) hstep⟩
    · obtain ⟨entry, hentry, hmost⟩ := h.isSound.isBest_of_best hlooked
      rw [hstore]
      refine ⟨entry, actions, [], s, hentry, looksUp_append_self actions j, h.performAll?_eq, hlooked,
        .of_most ?_ ?_⟩
      · rw [hstore]
        exact fun id other hother ↦ (hmost id other hother).1
      · intro k id hid
        rw [hstore]
        rcases found_of_perform? hstep hid with ⟨-, hbefore⟩ | ⟨-, -, -, hsame⟩
        · obtain ⟨other, -, -, -, hother, -⟩ := h.found k id hbefore
          exact ⟨other, hother⟩
        · rw [hlooked] at hsame
          cases hsame
          exact ⟨entry, hentry⟩

/-- The run lemma: every schedule keeps the threads orderly. -/
theorem performAll? (h : s.IsOrderly params actions) {more : Schedule ι}
    (hrun : s.performAll? more = some s') (hfit : s'.store.tree.HeightsFit) :
    s'.IsOrderly params (actions ++ more) := by
  induction more generalizing s actions with
  | nil =>
    cases hrun
    rwa [List.append_nil]
  | cons step more ih =>
    obtain ⟨middle, hfirst, hrest⟩ := Option.bind_eq_some_iff.mp hrun
    have hmiddle : middle.IsOrderly params (actions ++ [step]) :=
      h.perform? hfirst (hfit.of_grows (grows_performAll? hrest))
    rw [List.append_cons]
    exact ih hmiddle hrest

end IsOrderly

/-! ## The work of the active chain -/

/-- **Activations do not lower the work of the active chain unless they are overtaken.** Threads accept
headers and activate the best chain in any order, starting with an empty store, and no height overflows. A
switch makes the entry the tip that was the best one when its thread looked it up. An action never lowers
the work of the tip, except for a switch whose thread has been overtaken: since its look-up another one has
both looked up an entry and switched to it. -/
theorem tipWork_le_or_overtaken (params : Option WorkParams) {actions : Schedule ι}
    (hrun : (start params).performAll? actions = some s) (hstep : s.perform? i action = some s')
    (hfit : s'.store.tree.HeightsFit) :
    (action = .switch → ∃ earlier between before, LooksUp actions i earlier between ∧
      (start params).performAll? earlier = some before ∧
        ∃ best, before.store.tree.best = some best ∧ s'.store.chain.tip? = some best) ∧
    ((∀ work, s.store.tipWork? = some work →
        ∃ after, s'.store.tipWork? = some after ∧ work ≤ after) ∨
      action = .switch ∧
        ∃ earlier between, LooksUp actions i earlier between ∧ HoldsActivation between) := by
  have hold : s.store.tree.HeightsFit := hfit.of_grows (grows_perform? hstep)
  have h : s.IsOrderly params actions := (IsOrderly.of_start params).performAll? hrun hold
  rcases perform?_cases hstep with ⟨header, rfl, -, rfl⟩ | ⟨rfl, -, rfl⟩ | ⟨best, rfl, hbest, rfl⟩
  · refine ⟨(fun hswitch ↦ nomatch hswitch), .inl fun work hwork ↦ ⟨work, ?_, Nat.le_refl work⟩⟩
    rw [← hwork]
    exact tipWork?_of_grows h.isSound h.isPath hold (grows_change _ _) rfl
  · exact ⟨(fun hswitch ↦ nomatch hswitch), .inl fun work hwork ↦ ⟨work, hwork, Nat.le_refl work⟩⟩
  · obtain ⟨entry, earlier, between, before, hentry, hlooks, hearlier, hmost, hup⟩ := h.found i best hbest
    refine ⟨fun _ ↦ ⟨earlier, between, before, hlooks, hearlier, best, hmost, ?_⟩, ?_⟩
    · exact tip?_moveTip h.isSound h.isPath hold hentry
    · rcases hup.tip with hle | hholds
      · left
        intro work hwork
        exact ⟨_, tipWork?_moveTip h.isSound h.isPath hold hentry, hle work hwork⟩
      · exact .inr ⟨rfl, earlier, between, hlooks, hholds⟩

/-! ## A lost tip -/

/-- One thread looks up the first block. Before it goes on, the other one accepts a second block and
activates it. -/
def overtakingActions : Schedule Bool :=
  [(true, .accept rootHeader), (false, .lookUp), (true, .accept childHeader), (true, .lookUp),
    (true, .switch)]

theorem best_rootTree : rootTree.best = some 0 := by
  obtain ⟨root, -, hsize, -⟩ := pairTree_eq
  have hne : rootTree.size ≠ 0 := hsize ▸ Nat.one_ne_zero
  obtain ⟨best, hbest, entry, hentry, -⟩ := isSound_rootTree.best_eq_some hne
  have hlt : best < 1 := hsize ▸ BlockTree.lt_size hentry
  rw [hbest, Nat.lt_one_iff.mp hlt]

/-- The second block has more work than the first. -/
theorem best_pairTree : pairTree.best = some 1 := by
  obtain ⟨root, child, hsize, -, -, htree, -⟩ := pairTree_eq
  obtain ⟨first, second, hfirst, hsecond, hfirstWork, hsecondWork⟩ := get?_pairTree
  have hpair : pairTree.size = 2 := by rw [htree, BlockTree.size_append, hsize]
  have hne : pairTree.size ≠ 0 := hpair ▸ (by decide : 2 ≠ 0)
  obtain ⟨best, hbest, entry, hentry, hmost⟩ := isSound_pairTree.best_eq_some hne
  have hlt : best < 2 := hpair ▸ BlockTree.lt_size hentry
  have hnot : best ≠ 0 := by
    rintro rfl
    have hle := (hmost 1 second hsecond).1
    rw [hfirst] at hentry
    cases hentry
    omega
  have hone : best = 1 := Nat.le_antisymm (Nat.le_of_lt_succ hlt) (Nat.one_le_iff_ne_zero.mpr hnot)
  rw [hbest, hone]

/-- When the first thread goes on, the second block is no longer the tip. -/
theorem performAll?_overtakingActions : ∃ s s' : Threads Bool,
    (start none).performAll? overtakingActions = some s ∧ s.perform? false .switch = some s' ∧
      s.store.tipWork? = some 4 ∧ s'.store.tipWork? = some 2 ∧ s'.store.tree.HeightsFit := by
  obtain ⟨root, child, hroot, hchild, hrootWork, hchildWork⟩ := get?_pairTree
  let shared : HeaderStore := ⟨pairTree, .empty⟩
  let activated : HeaderStore := shared.change (.moveTip (some 1))
  have hshared : shared.chain.IsPath shared.tree := ActiveChain.isPath_empty _
  have hactivated : activated.chain.IsPath activated.tree :=
    isPath_change isSound_pairTree hshared (.moveTip (some 1)) heightsFit_pairTree
  let idle : Bool → Option BlockId := fun _ ↦ none
  let waiting : Bool → Option BlockId := Function.update idle false (some 0)
  let racing : Bool → Option BlockId := Function.update waiting true (some 1)
  have hfirst : perform? (start none) true (.accept rootHeader) = some ⟨⟨rootTree, .empty⟩, idle⟩ :=
    perform?_accept rfl rootHeader
  have hlookUp : perform? ⟨⟨rootTree, .empty⟩, idle⟩ false .lookUp =
      some ⟨⟨rootTree, .empty⟩, waiting⟩ := by
    rw [perform?_lookUp rfl, best_rootTree]
  have hsecond : perform? ⟨⟨rootTree, .empty⟩, waiting⟩ true (.accept childHeader) =
      some ⟨shared, waiting⟩ :=
    perform?_accept rfl childHeader
  have hother : perform? ⟨shared, waiting⟩ true .lookUp = some ⟨shared, racing⟩ := by
    rw [perform?_lookUp rfl, best_pairTree]
  have hswitch : perform? ⟨shared, racing⟩ true .switch =
      some ⟨activated, Function.update racing true none⟩ :=
    perform?_switch rfl
  have hwaits : (⟨activated, Function.update racing true none⟩ : Threads Bool).found false = some 0 := rfl
  refine ⟨⟨activated, Function.update racing true none⟩, _, ?_, perform?_switch hwaits, ?_, ?_,
    heightsFit_pairTree⟩
  · unfold overtakingActions
    rw [performAll?_cons hfirst, performAll?_cons hlookUp, performAll?_cons hsecond,
      performAll?_cons hother, performAll?_cons hswitch]
    rfl
  · rw [← hchildWork]
    exact tipWork?_moveTip isSound_pairTree hshared heightsFit_pairTree hchild
  · rw [← hrootWork]
    exact tipWork?_moveTip isSound_pairTree hactivated heightsFit_pairTree hroot

/-- Not every action of threads that only accept headers and activate the best chain keeps the work of
the tip. -/
theorem not_forall_tipWork_le :
    ¬ ∀ (actions : Schedule Bool) (s s' : Threads Bool) (i : Bool) (action : LockedAction),
      (start none).performAll? actions = some s → s.perform? i action = some s' →
        s'.store.tree.HeightsFit → ∀ work, s.store.tipWork? = some work →
          ∃ after, s'.store.tipWork? = some after ∧ work ≤ after := by
  intro hall
  obtain ⟨s, s', hrun, hstep, hbefore, hafter, hfit⟩ := performAll?_overtakingActions
  obtain ⟨after, hwork, hle⟩ := hall overtakingActions s s' false .switch hrun hstep hfit 4 hbefore
  rw [hafter] at hwork
  cases hwork
  exact absurd hle (by decide)

/-- The first thread looks up the first block, the second one activates its child, and the first one
goes back to what it had looked up: the work of the tip falls from 4 to 2. -/
theorem tipWork_le_or_overtaken_overtakingActions : ∃ s s' : Threads Bool,
    (start none).performAll? overtakingActions = some s ∧ s.perform? false .switch = some s' ∧
      s'.store.tree.HeightsFit ∧ s.store.tipWork? = some 4 ∧ s'.store.tipWork? = some 2 ∧
        ∃ earlier between, LooksUp overtakingActions false earlier between ∧ HoldsActivation between := by
  obtain ⟨s, s', hrun, hstep, hbefore, hafter, hfit⟩ := performAll?_overtakingActions
  refine ⟨s, s', hrun, hstep, hfit, hbefore, hafter, ?_⟩
  rcases (tipWork_le_or_overtaken none hrun hstep hfit).2 with hkept | ⟨-, hovertaken⟩
  · obtain ⟨after, hwork, hle⟩ := hkept 4 hbefore
    rw [hafter] at hwork
    cases hwork
    exact absurd hle (by decide)
  · exact hovertaken

end Threads

end UtxoConsensus
