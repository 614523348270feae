import Mathlib.Logic.Function.Basic
import Tle.Lib.Run

/-!
# Programs of atomic operations on a shared store

A program asks for one operation after the other and goes on with the reply to it; it may die. What an
operation does to the store and replies is given by `sem`. Any number of programs may take turns, each with
a state of its own beside the store, and a program may be cut off after any of its operations.
-/

namespace Tle.Lib

inductive Prog (Op Res α : Type) where
  | ret (a : α)
  | died
  | op (o : Op) (next : Res → Prog Op Res α)

namespace Prog

variable {Op Res α β σ ι : Type}

def bind : Prog Op Res α → (α → Prog Op Res β) → Prog Op Res β
  | ret a, f => f a
  | died, _ => died
  | op o next, f => op o fun r => (next r).bind f

instance : Monad (Prog Op Res) where
  pure := ret
  bind := bind

@[simp] theorem pure_eq (a : α) : (pure a : Prog Op Res α) = ret a := rfl

@[simp] theorem ret_bind (a : α) (f : α → Prog Op Res β) : ret a >>= f = f a := rfl

@[simp] theorem died_bind (f : α → Prog Op Res β) : died >>= f = died := rfl

@[simp] theorem op_bind (o : Op) (next : Res → Prog Op Res α) (f : α → Prog Op Res β) :
    op o next >>= f = op o fun r => next r >>= f := rfl

section Semantics

variable (sem : Op → σ → σ × Res)

def step (c : Prog Op Res α × σ) : Prog Op Res α × σ :=
  match c.1 with
  | op o next => (next (sem o c.2).2, (sem o c.2).1)
  | _ => c

/-- A run to the end, alone on the store. -/
def eval : Prog Op Res α → σ → Option (α × σ)
  | ret a, s => some (a, s)
  | died, _ => none
  | op o next, s => eval (next (sem o s).2) (sem o s).1

/-- The store when the program is cut off after `n` operations. -/
def cutOff (p : Prog Op Res α) (s : σ) (n : Nat) : σ := ((step sem)^[n] (p, s)).2

/-! ## Contracts

Others may change the store between two operations as `rely` says. While its operations fit, the program
does not die, changes the store as `guar` says and ends with `Q`. -/

def Safe (fits : Op → σ → Prop) (rely guar : σ → σ → Prop) (Q : α → σ → Prop) :
    Prog Op Res α → σ → Prop
  | ret a, s => ∀ s', rely s s' → Q a s'
  | died, _ => False
  | op o next, s => ∀ s', rely s s' → fits o s' →
      guar s' (sem o s').1 ∧ Safe fits rely guar Q (next (sem o s').2) (sem o s').1

def Triple (fits : Op → σ → Prop) (rely guar : σ → σ → Prop) (pre : σ → Prop) (p : Prog Op Res α)
    (Q : α → σ → Prop) : Prop :=
  ∀ s, pre s → p.Safe sem fits rely guar Q s

end Semantics

variable {sem : Op → σ → σ × Res} {fits : Op → σ → Prop} {rely guar : σ → σ → Prop}
  {pre pre' : σ → Prop} {p : Prog Op Res α} {f : α → Prog Op Res β} {Q : α → σ → Prop}
  {Q' : β → σ → Prop} {s s' : σ}

def Stable (rely : σ → σ → Prop) (pre : σ → Prop) : Prop := ∀ s s', rely s s' → pre s → pre s'

theorem Safe.later (htrans : ∀ a b c, rely a b → rely b c → rely a c)
    (h : p.Safe sem fits rely guar Q s) (hs : rely s s') : p.Safe sem fits rely guar Q s' := by
  cases p with
  | ret a => exact fun s'' hs'' => h s'' (htrans _ _ _ hs hs'')
  | died => exact h
  | op o next => exact fun s'' hs'' => h s'' (htrans _ _ _ hs hs'')

theorem Safe.bind (hrefl : ∀ a, rely a a) (h : p.Safe sem fits rely guar Q s)
    (hf : ∀ a, Triple sem fits rely guar (Q a) (f a) Q') :
    (p >>= f).Safe sem fits rely guar Q' s := by
  induction p generalizing s with
  | ret a => exact hf a s (h s (hrefl s))
  | died => exact h.elim
  | op o next ih => exact fun s' hs hfits => ⟨(h s' hs hfits).1, ih _ (h s' hs hfits).2⟩

theorem Safe.weaken {weaker : α → σ → Prop} (h : p.Safe sem fits rely guar Q s)
    (hQ : ∀ a s, Q a s → weaker a s) : p.Safe sem fits rely guar weaker s := by
  induction p generalizing s with
  | ret a => exact fun s' hs' => hQ a s' (h s' hs')
  | died => exact h
  | op o next ih => exact fun s' hs' hfits => ⟨(h s' hs' hfits).1, ih _ (h s' hs' hfits).2⟩

/-- What no operation undoes, neither of the program nor of others. -/
theorem Safe.frame {F : σ → Prop} (hrely : Stable rely F) (hguar : Stable guar F)
    (h : p.Safe sem fits rely guar Q s) (hs : F s) :
    p.Safe sem fits rely guar (fun a s => Q a s ∧ F s) s := by
  induction p generalizing s with
  | ret a => exact fun s' hs' => ⟨h s' hs', hrely s s' hs' hs⟩
  | died => exact h
  | op o next ih =>
      intro s' hs' hfits
      obtain ⟨hstep, hrest⟩ := h s' hs' hfits
      exact ⟨hstep, ih _ hrest (hguar _ _ hstep (hrely s s' hs' hs))⟩

namespace Triple

theorem frame {F : σ → Prop} (hrely : Stable rely F) (hguar : Stable guar F)
    (h : Triple sem fits rely guar pre p Q) :
    Triple sem fits rely guar (fun s => pre s ∧ F s) p (fun a s => Q a s ∧ F s) :=
  fun s hs => (h s hs.1).frame hrely hguar hs.2

theorem bind (hrefl : ∀ a, rely a a) (h : Triple sem fits rely guar pre p Q)
    (hf : ∀ a, Triple sem fits rely guar (Q a) (f a) Q') :
    Triple sem fits rely guar pre (p >>= f) Q' :=
  fun s hs => (h s hs).bind hrefl hf

theorem consequence (h : Triple sem fits rely guar pre p Q) (hpre : ∀ s, pre' s → pre s) :
    Triple sem fits rely guar pre' p Q :=
  fun s hs => h s (hpre s hs)

theorem ret {a : α} {Q : α → σ → Prop} (hstable : Stable rely (Q a)) :
    Triple sem fits rely guar (Q a) (Prog.ret a : Prog Op Res α) Q :=
  fun s hs s' hs' => hstable s s' hs' hs

/-- One operation: what it guarantees, and the rest of the program from what it leaves. -/
theorem op {o : Op} {next : Res → Prog Op Res α} (hstable : Stable rely pre)
    (h : ∀ s, pre s → fits o s → guar s (sem o s).1 ∧
      (next (sem o s).2).Safe sem fits rely guar Q (sem o s).1) :
    Triple sem fits rely guar pre (Prog.op o next) Q :=
  fun s hs s' hs' hfits => h s' (hstable s s' hs' hs) hfits

end Triple

/-! ## Alone -/

@[simp] theorem eval_ret (a : α) (s : σ) : (ret a : Prog Op Res α).eval sem s = some (a, s) := rfl

@[simp] theorem eval_died (s : σ) : (died : Prog Op Res α).eval sem s = none := rfl

@[simp] theorem eval_op (o : Op) (next : Res → Prog Op Res α) (s : σ) :
    (op o next).eval sem s = (next (sem o s).2).eval sem (sem o s).1 := rfl

@[simp] theorem eval_bind (p : Prog Op Res α) (f : α → Prog Op Res β) (s : σ) :
    (p >>= f).eval sem s = (p.eval sem s).bind fun r => (f r.1).eval sem r.2 := by
  induction p generalizing s with
  | ret a => rfl
  | died => rfl
  | op o next ih => exact ih _ _

theorem Safe.eval (h : p.Safe sem (fun _ _ => True) Eq guar Q s) :
    ∃ a s', p.eval sem s = some (a, s') ∧ Q a s' := by
  induction p generalizing s with
  | ret a => exact ⟨a, s, rfl, h s rfl⟩
  | died => exact h.elim
  | op o next ih => exact ih _ (h s rfl trivial).2

/-- Whatever every operation guarantees, a program that is cut off has guaranteed. -/
theorem Safe.cutOff (hrefl : ∀ a, guar a a) (htrans : ∀ a b c, guar a b → guar b c → guar a c)
    (h : p.Safe sem (fun _ _ => True) Eq guar Q s) (n : Nat) : guar s (p.cutOff sem s n) := by
  induction n generalizing p s with
  | zero => exact hrefl s
  | succ n ih =>
      unfold Prog.cutOff
      rw [Function.iterate_succ_apply]
      cases p with
      | ret a => exact ih h
      | died => exact h.elim
      | op o next =>
          obtain ⟨hguar, hrest⟩ := h s rfl trivial
          exact htrans _ _ _ hguar (ih hrest)

/-! ## Taking turns

The store is what the programs share; `sem` sees it together with the part that the program has for
itself. -/

structure System (ι Op Res α σ τ : Type) where
  procs : ι → Prog Op Res α
  own : ι → τ
  store : σ

section Interleaving

variable {τ : Type} [DecidableEq ι] {sem : Op → σ × τ → (σ × τ) × Res} {fits : Op → σ × τ → Prop}
  {rely guar : σ × τ → σ × τ → Prop} {Q : α → σ × τ → Prop}

def System.view (c : System ι Op Res α σ τ) (i : ι) : σ × τ := (c.store, c.own i)

/-- The next operation of the program `i`. -/
def System.step (sem : Op → σ × τ → (σ × τ) × Res) (c : System ι Op Res α σ τ) (i : ι) :
    System ι Op Res α σ τ :=
  match c.procs i with
  | op o next =>
      { procs := Function.update c.procs i (next (sem o (c.view i)).2)
        own := Function.update c.own i (sem o (c.view i)).1.2
        store := (sem o (c.view i)).1.1 }
  | _ => c

/-- The next operation of the program `i` fits what it sees. -/
def System.Fits (fits : Op → σ × τ → Prop) (c : System ι Op Res α σ τ) (i : ι) : Prop :=
  ∀ o next, c.procs i = op o next → fits o (c.view i)

theorem System.step_op {c : System ι Op Res α σ τ} {i : ι} {o : Op} {next : Res → Prog Op Res α}
    (h : c.procs i = op o next) : c.step sem i =
      { procs := Function.update c.procs i (next (sem o (c.view i)).2)
        own := Function.update c.own i (sem o (c.view i)).1.2
        store := (sem o (c.view i)).1.1 } := by
  simp only [System.step, h]

theorem System.step_eq_self {c : System ι Op Res α σ τ} {i : ι}
    (h : ∀ o next, c.procs i ≠ op o next) : c.step sem i = c := by
  unfold System.step
  split
  · rename_i o next hp
    exact absurd hp (h o next)
  · rfl

theorem System.safe_step (htrans : ∀ a b c, rely a b → rely b c → rely a c)
    (hguar : ∀ a b t, guar a b → rely (a.1, t) (b.1, t)) (hrefl : ∀ a, rely a a)
    {c : System ι Op Res α σ τ} (h : ∀ i, (c.procs i).Safe sem fits rely guar Q (c.view i)) {i : ι}
    (hfits : c.Fits fits i) (j : ι) :
    ((c.step sem i).procs j).Safe sem fits rely guar Q ((c.step sem i).view j) := by
  by_cases hop : ∃ o next, c.procs i = op o next
  · obtain ⟨o, next, hp⟩ := hop
    have hi := h i
    rw [hp] at hi
    obtain ⟨hstep, hrest⟩ := hi (c.view i) (hrefl _) (hfits o next hp)
    rw [System.step_op hp]
    by_cases hj : j = i
    · subst hj
      simpa only [System.view, Function.update_self] using hrest
    · simpa only [System.view, Function.update_of_ne hj] using (h j).later htrans (hguar _ _ _ hstep)
  · have hidle : c.step sem i = c := System.step_eq_self fun o next hp => hop ⟨o, next, hp⟩
    rw [hidle]
    exact h j

/-- Programs that keep the same contract keep it in any order of turns. -/
theorem System.safe_run (htrans : ∀ a b c, rely a b → rely b c → rely a c)
    (hguar : ∀ a b t, guar a b → rely (a.1, t) (b.1, t)) (hrefl : ∀ a, rely a a)
    {c : System ι Op Res α σ τ} (h : ∀ i, (c.procs i).Safe sem fits rely guar Q (c.view i)) (turns : List ι)
    (hfits : ∀ pre i, pre ++ [i] <+: turns → (run (System.step sem) c pre).Fits fits i) (j : ι) :
    ((run (System.step sem) c turns).procs j).Safe sem fits rely guar Q
      ((run (System.step sem) c turns).view j) := by
  induction turns using List.reverseRecOn generalizing j with
  | nil => exact h j
  | append_singleton turns i ih =>
      have hbefore := ih fun pre k hpre => hfits pre k (hpre.trans (List.prefix_append turns [i]))
      rw [run_snoc]
      exact System.safe_step htrans hguar hrefl hbefore (hfits turns i (List.prefix_refl _)) j

end Interleaving

/-! ## Operations that do not fit -/

section Strictness

variable (sem fits)

/-- The program dies of an operation that does not fit. -/
def Strict : Prog Op Res α → Prop
  | ret _ => True
  | died => True
  | op o next => (∀ s, ¬fits o s → next (sem o s).2 = died) ∧ ∀ r, Strict (next r)

variable {sem fits}

theorem Strict.bind (h : p.Strict sem fits) (hf : ∀ a, (f a).Strict sem fits) :
    (p >>= f).Strict sem fits := by
  induction p with
  | ret a => exact hf a
  | died => exact trivial
  | op o next ih =>
      refine ⟨fun s hs => ?_, fun r => ih r (h.2 r)⟩
      change next (sem o s).2 >>= f = died
      rw [h.1 s hs, died_bind]

variable {τ : Type} [DecidableEq ι] {sem : Op → σ × τ → (σ × τ) × Res} {fits : Op → σ × τ → Prop}

theorem System.strict_step {c : System ι Op Res α σ τ} (h : ∀ i, (c.procs i).Strict sem fits) (i j : ι) :
    ((c.step sem i).procs j).Strict sem fits := by
  by_cases hop : ∃ o next, c.procs i = op o next
  · obtain ⟨o, next, hp⟩ := hop
    have hi := h i
    rw [hp] at hi
    rw [System.step_op hp]
    by_cases hj : j = i
    · subst hj
      simpa only [Function.update_self] using hi.2 _
    · simpa only [Function.update_of_ne hj] using h j
  · rw [System.step_eq_self fun o next hp => hop ⟨o, next, hp⟩]
    exact h j

theorem System.dies_of_not_fits {c : System ι Op Res α σ τ} (h : ∀ i, (c.procs i).Strict sem fits) {i : ι}
    (hfits : ¬c.Fits fits i) : (c.step sem i).procs i = died := by
  simp only [System.Fits, not_forall] at hfits
  obtain ⟨o, next, hp, hmisfit⟩ := hfits
  have hi := h i
  rw [hp] at hi
  rw [System.step_op hp]
  simpa only [Function.update_self] using hi.1 _ hmisfit

end Strictness

/-! ## What some program still has to do

A fact about the store may be undone for a while by a program that will bring it about again. -/

section Obligations

variable (sem) (inv fact : σ → Prop)

/-- On every way to its end the program brings about `fact`, or ends with an `a` of `done`. -/
def Leads (done : α → Prop) : Prog Op Res α → Prop
  | ret a => done a
  | died => True
  | op o next => ∀ s, inv s → fact (sem o s).1 ∨ Leads done (next (sem o s).2)

/-- The program keeps `inv`, and undoes `fact` only while it leads to it. -/
def Restores (done : α → Prop) : Prog Op Res α → Prop
  | ret _ => True
  | died => True
  | op o next => ∀ s, inv s → inv (sem o s).1 ∧
      (fact s → fact (sem o s).1 ∨ Leads sem inv fact done (next (sem o s).2)) ∧
      Restores done (next (sem o s).2)

variable {inv fact} {done : α → Prop} {done' : β → Prop}

theorem Leads.bind (h : p.Leads sem inv fact fun a => (f a).Leads sem inv fact done') :
    (p >>= f).Leads sem inv fact done' := by
  induction p with
  | ret a => exact h
  | died => exact trivial
  | op o next ih => exact fun s hs => (h s hs).imp_right (ih _)

theorem Leads.of_all (h : ∀ a, done a) : p.Leads sem inv fact done := by
  induction p with
  | ret a => exact h a
  | died => exact trivial
  | op o next ih => exact fun s _ => Or.inr (ih _)

theorem Restores.bind (h : p.Restores sem inv fact fun a => (f a).Leads sem inv fact done')
    (hf : ∀ a, (f a).Restores sem inv fact done') : (p >>= f).Restores sem inv fact done' := by
  induction p with
  | ret a => exact hf a
  | died => exact trivial
  | op o next ih =>
      intro s hs
      obtain ⟨hinv, hfact, hrest⟩ := h s hs
      exact ⟨hinv, fun hs' => (hfact hs').imp_right (Leads.bind sem), ih _ hrest⟩

/-- A program that ends without anything left to do has brought about `fact`. -/
theorem Leads.eval {a : α} (h : p.Restores sem inv fact fun _ => False) (hinv : inv s)
    (howed : fact s ∨ p.Leads sem inv fact fun _ => False) (heval : p.eval sem s = some (a, s')) :
    inv s' ∧ fact s' := by
  induction p generalizing s with
  | ret b =>
      cases heval
      exact ⟨hinv, howed.resolve_right id⟩
  | died => cases heval
  | op o next ih =>
      obtain ⟨hinv', hfact, hrest⟩ := h s hinv
      refine ih _ hrest hinv' ?_ heval
      exact howed.elim hfact fun hleads => hleads s hinv

section Systems

variable {τ : Type} [DecidableEq ι] {sem : Op → σ × τ → (σ × τ) × Res}

/-- `fact` holds of the store, or some program leads to it. -/
structure System.Owed (sem : Op → σ × τ → (σ × τ) × Res) (inv fact : σ → Prop) (done : α → Prop)
    (c : System ι Op Res α σ τ) : Prop where
  kept : inv c.store
  restores : ∀ i, (c.procs i).Restores sem (fun s => inv s.1) (fun s => fact s.1) done
  owed : fact c.store ∨ ∃ i, (c.procs i).Leads sem (fun s => inv s.1) (fun s => fact s.1) done

theorem System.Owed.step {c : System ι Op Res α σ τ} (h : c.Owed sem inv fact done) (i : ι) :
    (c.step sem i).Owed sem inv fact done := by
  by_cases hop : ∃ o next, c.procs i = op o next
  · obtain ⟨o, next, hp⟩ := hop
    have hi := h.restores i
    rw [hp] at hi
    obtain ⟨hinv, hfact, hrest⟩ := hi (c.view i) h.kept
    rw [System.step_op hp]
    refine ⟨hinv, fun j => ?_, ?_⟩
    · by_cases hj : j = i
      · subst hj
        simpa only [Function.update_self] using hrest
      · simpa only [Function.update_of_ne hj] using h.restores j
    · obtain hnow | ⟨j, hj⟩ := h.owed
      · exact (hfact hnow).imp_right fun hleads => ⟨i, by simpa only [Function.update_self] using hleads⟩
      · by_cases hji : j = i
        · subst hji
          rw [hp] at hj
          exact (hj (c.view j) h.kept).imp_right fun hleads =>
            ⟨j, by simpa only [Function.update_self] using hleads⟩
        · exact Or.inr ⟨j, by simpa only [Function.update_of_ne hji] using hj⟩
  · have hidle : c.step sem i = c := System.step_eq_self fun o next hp => hop ⟨o, next, hp⟩
    rw [hidle]
    exact h

theorem System.Owed.run {c : System ι Op Res α σ τ} (h : c.Owed sem inv fact done) (turns : List ι) :
    (Tle.Lib.run (System.step sem) c turns).Owed sem inv fact done :=
  run_keeps h (fun _ i hc => hc.step i) turns

end Systems

end Obligations

end Prog

end Tle.Lib
