import UtxoConsensus.Proofs.Interpreter.Runs

/-!
# Comparing two runs

Many laws of the interpreter are about two runs: under other flags, or with another checker. The two
machines then hold the same stacks and counts in lockstep, and only the states of their checkers
differ. `Comparison.Follows` says of two computations that the second one keeps pace with the first.
A comparison may be lenient, and ask nothing of the second run once the first one has failed. It may
also be called off for good by the state of the first checker.

Every step that the interpreter is made of has a rule here, and `Follows.bind` joins the rules, so
that the proof for an opcode has the shape of its definition.
-/

namespace UtxoConsensus

variable {σ τ α β : Type}

def Machine.withWorld (m : Machine σ) (world : τ) : Machine τ where
  stack := m.stack
  altStack := m.altStack
  scriptCode := m.scriptCode
  opCount := m.opCount
  sigChecks := m.sigChecks
  world := world

@[simp] theorem Machine.stack_withWorld (m : Machine σ) (world : τ) :
    (m.withWorld world).stack = m.stack := rfl

@[simp] theorem Machine.altStack_withWorld (m : Machine σ) (world : τ) :
    (m.withWorld world).altStack = m.altStack := rfl

/-- How the states of the checkers of two runs are compared. -/
structure Comparison (σ τ : Type) where
  /-- Do the states correspond? -/
  worlds : σ → τ → Prop
  /-- Has the comparison been called off in the first run? -/
  void : σ → Prop
  /-- Does a failure of the first run allow anything of the second? -/
  lenient : Prop

namespace Comparison

/-- The second result is the first one, but for the states of the checkers, which correspond. -/
def Agrees (c : Comparison σ τ) :
    EStateM.Result Halt (Machine σ) α → EStateM.Result Halt (Machine τ) α → Prop
  | .ok a m, r => ∃ w, r = .ok a (m.withWorld w) ∧ c.worlds m.world w
  | .error e m, r => c.lenient ∨ ∃ w, r = .error e (m.withWorld w) ∧ c.worlds m.world w

/-- The second computation keeps pace with the first, up to where the comparison is called off. -/
structure Follows (c : Comparison σ τ) (x : Exec σ α) (y : Exec τ α) : Prop where
  void : ∀ m (_ : τ), c.void m.world → c.void (Machine.after (x m)).world
  agrees : ∀ m w, c.worlds m.world w →
    c.void (Machine.after (x m)).world ∨ c.Agrees (x m) (y (m.withWorld w))

variable {c : Comparison σ τ}

namespace Follows

/-! ## Composition -/

/-- Computations that agree part by part agree as a whole. -/
theorem bind {x : Exec σ α} {y : Exec τ α} {f : α → Exec σ β} {g : α → Exec τ β}
    (hxy : c.Follows x y) (hfg : ∀ a, c.Follows (f a) (g a)) :
    c.Follows (x >>= f) (y >>= g) := by
  constructor
  · intro m w hm
    have hvoid := hxy.void m w hm
    cases hx : x m with
    | ok a m' =>
      rw [hx] at hvoid
      rw [Exec.bind_of_ok hx]
      exact (hfg a).void m' w hvoid
    | error e m' =>
      rw [hx] at hvoid
      rwa [Exec.bind_of_error hx]
  · intro m w hw
    have hagrees := hxy.agrees m w hw
    cases hx : x m with
    | ok a m' =>
      rw [hx] at hagrees
      rw [Exec.bind_of_ok hx]
      rcases hagrees with hvoid | ⟨w', hy, hw'⟩
      · exact .inl ((hfg a).void m' w hvoid)
      · rw [Exec.bind_of_ok hy]
        exact (hfg a).agrees m' w' hw'
    | error e m' =>
      rw [hx] at hagrees
      rw [Exec.bind_of_error hx]
      rcases hagrees with hvoid | hlenient | ⟨w', hy, hw'⟩
      · exact .inl hvoid
      · exact .inr (.inl hlenient)
      · rw [Exec.bind_of_error hy]
        exact .inr (.inr ⟨w', rfl, hw'⟩)

theorem pure (a : α) : c.Follows (pure a : Exec σ α) (pure a) where
  void _ _ hm := hm
  agrees _ w hw := .inr ⟨w, rfl, hw⟩

/-- A computation that reads the machine is compared once for each machine that it may read. -/
theorem bind_get {f : Machine σ → Exec σ α} {g : Machine τ → Exec τ α}
    (h : ∀ m w, c.Follows (f m) (g (m.withWorld w))) : c.Follows (get >>= f) (get >>= g) where
  void m w hm := (h m w).void m w hm
  agrees m w hw := (h m w).agrees m w hw

theorem modify {f : Machine σ → Machine σ} {g : Machine τ → Machine τ}
    (hworld : ∀ m, (f m).world = m.world) (h : ∀ m w, g (m.withWorld w) = (f m).withWorld w) :
    c.Follows (modify f : Exec σ Unit) (modify g) where
  void m _ hm := by
    change c.void (f m).world
    rwa [hworld]
  agrees m w hw := by
    right
    refine ⟨w, ?_, ?_⟩
    · change EStateM.Result.ok () (g (m.withWorld w)) = _
      rw [h]
    · rwa [hworld]

theorem ite {p : Prop} [Decidable p] {x x' : Exec σ α} {y y' : Exec τ α} (hx : c.Follows x y)
    (hy : c.Follows x' y') : c.Follows (if p then x else x') (if p then y else y') := by
  by_cases hp : p
  · rwa [if_pos hp, if_pos hp]
  · rwa [if_neg hp, if_neg hp]

/-! ## Ends of a run -/

theorem throw (e : Halt) : c.Follows (throw e : Exec σ α) (throw e) where
  void _ _ hm := hm
  agrees _ w hw := .inr (.inr ⟨w, rfl, hw⟩)

theorem fail (e : ScriptError) : c.Follows (Exec.fail e : Exec σ α) (Exec.fail e) :=
  .throw _

/-- In a lenient comparison the second run may do anything after a failure. -/
theorem fail_of_lenient (hlenient : c.lenient) (e : ScriptError) (y : Exec τ α) :
    c.Follows (Exec.fail e : Exec σ α) y where
  void _ _ hm := hm
  agrees _ _ _ := .inr (.inl hlenient)

theorem failIf (b : Bool) (e : ScriptError) :
    c.Follows (Exec.failIf b e : Exec σ Unit) (Exec.failIf b e) := by
  unfold Exec.failIf
  exact .ite (.fail e) (.pure ())

/-- The second run may drop a check, or fail it in another way. -/
theorem failIf_of_lenient (hlenient : c.lenient) {b b' : Bool} (himp : b' = true → b = true)
    (e e' : ScriptError) : c.Follows (Exec.failIf b e : Exec σ Unit) (Exec.failIf b' e') := by
  cases b with
  | true => exact .fail_of_lenient hlenient e _
  | false =>
    cases b' with
    | true => exact absurd (himp rfl) Bool.false_ne_true
    | false => exact .pure ()

/-- The second run may drop a check, where failures of the first are not compared. -/
theorem failIf_of_imp {b b' : Bool} (himp : b' = true → b = true) (hsame : c.lenient ∨ b = b')
    (e : ScriptError) : c.Follows (Exec.failIf b e : Exec σ Unit) (Exec.failIf b' e) := by
  rcases hsame with hlenient | rfl
  · exact .failIf_of_lenient hlenient himp e e
  · exact .failIf b e

theorem lift (r : Except ScriptError α) :
    c.Follows (Exec.lift r : Exec σ α) (Exec.lift r) := by
  cases r with
  | ok a => exact .pure a
  | error e => exact .fail e

/-- A rule of the second run that passes wherever the one of the first does. -/
theorem lift_of_imp {r r' : Except ScriptError α} (himp : ∀ a, r = .ok a → r' = .ok a)
    (hsame : c.lenient ∨ r = r') : c.Follows (Exec.lift r : Exec σ α) (Exec.lift r') := by
  rcases hsame with hlenient | rfl
  · cases hr : r with
    | ok a =>
      rw [himp a hr]
      exact .pure a
    | error e => exact .fail_of_lenient hlenient e _
  · exact .lift r

/-- What comes after a rule may rely on it. -/
theorem bind_lift {r r' : Except ScriptError α} {f : α → Exec σ β} {g : α → Exec τ β}
    (himp : ∀ a, r = .ok a → r' = .ok a) (hsame : c.lenient ∨ r = r')
    (hfg : ∀ a, r = .ok a → c.Follows (f a) (g a)) :
    c.Follows (Exec.lift r >>= f) (Exec.lift r' >>= g) := by
  cases hr : r with
  | ok a =>
    rw [himp a hr]
    exact hfg a hr
  | error e =>
    rcases hsame with hlenient | heq
    · exact .fail_of_lenient hlenient e _
    · rw [← heq, hr]
      exact .fail e

/-- Where failures are not compared the second run may leave out what only reads the machine. -/
theorem bind_of_keeps {x : Exec σ α} {f : α → Exec σ β} {y : Exec τ β} (hlenient : c.lenient)
    (hx : Exec.Keeps id x) (hf : ∀ a, c.Follows (f a) y) : c.Follows (x >>= f) y := by
  constructor
  · intro m w hm
    cases hr : x m with
    | ok a m' =>
      obtain rfl : m' = m := hx.eq_of_ok hr
      rw [Exec.bind_of_ok hr]
      exact (hf a).void m' w hm
    | error e m' =>
      have hsame := hx m
      rw [hr] at hsame
      rw [Exec.bind_of_error hr]
      exact (congrArg (c.void ·.world) hsame).mpr hm
  · intro m w hw
    cases hr : x m with
    | ok a m' =>
      obtain rfl : m' = m := hx.eq_of_ok hr
      rw [Exec.bind_of_ok hr]
      exact (hf a).agrees m' w hw
    | error e m' =>
      rw [Exec.bind_of_error hr]
      exact .inr (.inl hlenient)

theorem orFault (a : Option α) : c.Follows (Exec.orFault a : Exec σ α) (Exec.orFault a) := by
  cases a with
  | none => exact .throw .fault
  | some a => exact .pure a

theorem difference (a b : Nat) :
    c.Follows (Exec.difference a b : Exec σ Nat) (Exec.difference a b) := by
  unfold Exec.difference
  exact .ite (.pure _) (.throw _)

theorem word (n : Int) : c.Follows (Exec.word n : Exec σ Int) (Exec.word n) := by
  unfold Exec.word
  exact .ite (.pure _) (.throw _)

/-! ## Results and counts -/

theorem push (b : Bytes) : c.Follows (Exec.push b : Exec σ Unit) (Exec.push b) :=
  .modify (fun _ ↦ rfl) fun _ _ ↦ rfl

theorem drop (count : Nat) : c.Follows (Exec.drop count : Exec σ Unit) (Exec.drop count) :=
  .modify (fun _ ↦ rfl) fun _ _ ↦ rfl

theorem pushBool (b : Bool) : c.Follows (Exec.pushBool b : Exec σ Unit) (Exec.pushBool b) :=
  .push _

theorem pushNumber (n : Int) : c.Follows (Exec.pushNumber n : Exec σ Unit) (Exec.pushNumber n) :=
  .bind (.word n) fun _ ↦ .push _

theorem answer (verify : Bool) (e : ScriptError) (result : Bool) :
    c.Follows (Exec.answer verify e result : Exec σ Unit) (Exec.answer verify e result) :=
  .ite (.failIf _ e) (.pushBool result)

theorem countSigChecks (count : Nat) :
    c.Follows (Env.countSigChecks count : Exec σ Unit) (Env.countSigChecks count) :=
  .modify (fun _ ↦ rfl) fun _ _ ↦ rfl

/-! ## Steps that read the machine -/

theorem require (count : Nat) : c.Follows (Exec.require count : Exec σ Unit) (Exec.require count) :=
  .bind_get fun _ _ ↦ .failIf _ _

theorem peek (depth : Nat) : c.Follows (Exec.peek depth : Exec σ Bytes) (Exec.peek depth) :=
  .bind_get fun _ _ ↦ .orFault _

theorem peekMany (depth count : Nat) :
    c.Follows (Exec.peekMany depth count : Exec σ (List Bytes)) (Exec.peekMany depth count) :=
  .bind_get fun _ _ ↦ .ite (.pure _) (.throw _)

theorem pop : c.Follows (Exec.pop : Exec σ Bytes) Exec.pop := by
  refine .bind_get fun m w ↦ ?_
  rw [Machine.stack_withWorld]
  cases m.stack with
  | nil => exact .fail _
  | cons top rest => exact .bind (.modify (fun _ ↦ rfl) fun _ _ ↦ rfl) fun _ ↦ .pure top

theorem removeAt (depth : Nat) :
    c.Follows (Exec.removeAt depth : Exec σ Bytes) (Exec.removeAt depth) :=
  .bind (.peek depth) fun element ↦
    .bind (.modify (fun _ ↦ rfl) fun _ _ ↦ rfl) fun _ ↦ .pure element

theorem exchange (i j : Nat) : c.Follows (Exec.exchange i j : Exec σ Unit) (Exec.exchange i j) :=
  .bind (.peek i) fun _ ↦ .bind (.peek j) fun _ ↦ .modify (fun _ ↦ rfl) fun _ _ ↦ rfl

theorem insertAt (depth : Nat) (b : Bytes) :
    c.Follows (Exec.insertAt depth b : Exec σ Unit) (Exec.insertAt depth b) :=
  .bind_get fun _ _ ↦ .ite (.modify (fun _ ↦ rfl) fun _ _ ↦ rfl) (.throw _)

theorem countOperations (count : Nat) :
    c.Follows (Env.countOperations count : Exec σ Unit) (Env.countOperations count) :=
  .bind (.modify (fun _ ↦ rfl) fun _ _ ↦ rfl) fun _ ↦ .bind_get fun _ _ ↦ .failIf _ _

end Follows

/-! ## Questions to the checker -/

/-- Two checkers answer a question alike, unless the first one calls the comparison off. -/
structure Asks (c : Comparison σ τ) (p : StateM σ α) (q : StateM τ α) : Prop where
  void : ∀ s (_ : τ), c.void s → c.void (p.run s).2
  agrees : ∀ s w, c.worlds s w →
    c.void (p.run s).2 ∨ (p.run s).1 = (q.run w).1 ∧ c.worlds (p.run s).2 (q.run w).2

theorem Asks.pure (a : α) : c.Asks (pure a : StateM σ α) (pure a) where
  void _ _ hs := hs
  agrees _ _ hw := .inr ⟨rfl, hw⟩

/-- A signature with a hash type, given how the rest of it is verified. -/
theorem Asks.checkDigest {verify : Bytes → Bytes → Hash256 → StateM σ Bool}
    {verify' : Bytes → Bytes → Hash256 → StateM τ Bool} {key : Bytes}
    (h : ∀ sig message, c.Asks (verify sig key message) (verify' sig key message))
    (digest? : Option Hash256) (sig : Bytes) :
    c.Asks (Checker.checkDigest verify digest? sig key)
      (Checker.checkDigest verify' digest? sig key) := by
  unfold Checker.checkDigest
  split
  · exact .pure false
  · cases digest? with
    | none => exact .pure false
    | some message => exact h sig.dropLast message

/-- Questions that are answered alike keep the machines alike. -/
theorem Follows.ask {p : StateM σ α} {q : StateM τ α} (h : c.Asks p q) :
    c.Follows (Env.ask p) (Env.ask q) where
  void m w hm := h.void m.world w hm
  agrees m w hw := by
    rcases h.agrees m.world w hw with hvoid | ⟨hanswer, hworlds⟩
    · exact .inl hvoid
    · refine .inr ⟨(q.run w).2, ?_, hworlds⟩
      change EStateM.Result.ok (q.run w).1 _ = EStateM.Result.ok (p.run m.world).1 _
      rw [hanswer]
      rfl

/-! ## Checkers in the same state -/

/-- The comparison of two runs that hold the same state of the checker throughout. -/
def onEqual (σ : Type) (lenient : Prop) : Comparison σ σ where
  worlds s t := s = t
  void _ := False
  lenient := lenient

/-- A computation keeps pace with itself. -/
theorem Follows.refl {lenient : Prop} (x : Exec σ α) : (onEqual σ lenient).Follows x x where
  void _ _ hvoid := hvoid
  agrees m w hw := by
    cases hw
    right
    change (onEqual σ lenient).Agrees (x m) (x m)
    cases x m with
    | ok a m' => exact ⟨m'.world, rfl, rfl⟩
    | error e m' => exact .inr ⟨m'.world, rfl, rfl⟩

theorem Asks.of_eq {lenient : Prop} {p q : StateM σ α} (h : p = q) : (onEqual σ lenient).Asks p q where
  void _ _ hvoid := hvoid
  agrees s w hw := by
    cases hw
    rw [h]
    exact .inr ⟨rfl, rfl⟩

theorem Asks.eq {lenient : Prop} {p q : StateM σ α} (h : (onEqual σ lenient).Asks p q) : p = q := by
  funext s
  obtain ⟨hanswer, hworld⟩ := (h.agrees s s rfl).resolve_left id
  exact Prod.ext hanswer hworld

/-! ## Invariants of the checker -/

/-- The comparison of a run with itself, in which the state of the checker keeps an invariant. -/
def keeping (invariant : σ → Prop) : Comparison σ σ where
  worlds s t := s = t ∧ invariant s
  void _ := False
  lenient := False

theorem Asks.of_keeps {invariant : σ → Prop} {p : StateM σ α}
    (h : ∀ s, invariant s → invariant (p.run s).2) : (keeping invariant).Asks p p where
  void _ _ hvoid := hvoid
  agrees s w hw := by
    obtain ⟨rfl, hs⟩ := hw
    exact .inr ⟨rfl, rfl, h s hs⟩

theorem Asks.keeps {invariant : σ → Prop} {p q : StateM σ α} (h : (keeping invariant).Asks p q)
    {s : σ} (hs : invariant s) : invariant (p.run s).2 :=
  ((h.agrees s s ⟨rfl, hs⟩).resolve_left id).2.2

end Comparison

end UtxoConsensus
