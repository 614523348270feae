import Mathlib.Data.List.Infix
import Mathlib.Data.List.Nodup

/-!
# Leases with fencing tokens

A key is leased to at most one token at a time. The log records every grant, every finish by the
token that holds the lease and every revocation; the holder of a key is read off its last event.
-/

namespace Tle.Lib

inductive LeaseEvent (κ τ : Type*) where
  | grant (k : κ) (t : τ)
  | finish (k : κ) (t : τ)
  | revoke (k : κ)
  deriving DecidableEq

namespace LeaseEvent

variable {κ τ : Type*}

def key : LeaseEvent κ τ → κ
  | grant k _ => k
  | finish k _ => k
  | revoke k => k

/-- The token that holds the key of the event right after it. -/
def holder : LeaseEvent κ τ → Option τ
  | grant _ t => some t
  | finish _ _ => none
  | revoke _ => none

def granted? : LeaseEvent κ τ → Option τ
  | grant _ t => some t
  | _ => none

def finished? : LeaseEvent κ τ → Option τ
  | finish _ t => some t
  | _ => none

end LeaseEvent

namespace Lease

variable {κ τ : Type*}

def granted (log : List (LeaseEvent κ τ)) : List τ := log.filterMap LeaseEvent.granted?

def finished (log : List (LeaseEvent κ τ)) : List τ := log.filterMap LeaseEvent.finished?

/-- `t` was granted `k`, and no later event concerns `k`. -/
def Current (log : List (LeaseEvent κ τ)) (k : κ) (t : τ) : Prop :=
  ∃ pre post, log = pre ++ .grant k t :: post ∧ ∀ e ∈ post, e.key ≠ k

/-- Only the holder finishes. -/
def Legal (log : List (LeaseEvent κ τ)) : Prop :=
  ∀ pre post k t, log = pre ++ .finish k t :: post → Current pre k t

section Holder

variable [DecidableEq κ]

def holder (log : List (LeaseEvent κ τ)) (k : κ) : Option τ :=
  log.foldl (fun h e => if e.key = k then e.holder else h) none

@[simp] theorem holder_nil (k : κ) : holder ([] : List (LeaseEvent κ τ)) k = none := rfl

theorem holder_snoc (log : List (LeaseEvent κ τ)) (e : LeaseEvent κ τ) (k : κ) :
    holder (log ++ [e]) k = if e.key = k then e.holder else holder log k := by
  simp [holder]

theorem holder_append_of_ne (log es : List (LeaseEvent κ τ)) (k : κ) (h : ∀ e ∈ es, e.key ≠ k) :
    holder (log ++ es) k = holder log k := by
  induction es using List.reverseRecOn with
  | nil => simp
  | append_singleton es e ih =>
      rw [← List.append_assoc, holder_snoc, if_neg (h e (by simp))]
      exact ih (fun e' he' => h e' (by simp [he']))

/-- Revoking the keys `ks` leaves the other keys with their holders. -/
theorem holder_append_revokes (log : List (LeaseEvent κ τ)) (ks : List κ) (k : κ) :
    holder (log ++ ks.map .revoke) k = if k ∈ ks then none else holder log k := by
  induction ks using List.reverseRecOn with
  | nil => simp
  | append_singleton ks k' ih =>
      rw [List.map_append, ← List.append_assoc, List.map_singleton, holder_snoc, ih]
      by_cases hk : k' = k
      · simp [LeaseEvent.key, LeaseEvent.holder, hk]
      · have hk' : k ≠ k' := fun h => hk h.symm
        simp [LeaseEvent.key, hk, hk']

theorem holder_eq_some_iff {log : List (LeaseEvent κ τ)} {k : κ} {t : τ} :
    holder log k = some t ↔ Current log k t := by
  constructor
  · intro h
    induction log using List.reverseRecOn with
    | nil => simp at h
    | append_singleton log e ih =>
        rw [holder_snoc] at h
        by_cases he : e.key = k
        · rw [if_pos he] at h
          cases e with
          | grant k' t' => cases he; cases h; exact ⟨log, [], rfl, by simp⟩
          | finish _ _ => cases h
          | revoke _ => cases h
        · rw [if_neg he] at h
          obtain ⟨pre, post, rfl, hpost⟩ := ih h
          refine ⟨pre, post ++ [e], by simp, ?_⟩
          intro e' he'
          rcases List.mem_append.mp he' with hmem | hmem
          · exact hpost e' hmem
          · rw [List.mem_singleton.mp hmem]; exact he
  · rintro ⟨pre, post, rfl, hpost⟩
    rw [List.append_cons, holder_append_of_ne _ _ _ hpost, holder_snoc]
    simp [LeaseEvent.key, LeaseEvent.holder]

end Holder

theorem Current.unique {log : List (LeaseEvent κ τ)} {k : κ} {t t' : τ} (h : Current log k t)
    (h' : Current log k t') : t = t' := by
  classical
  have := (holder_eq_some_iff.mpr h).symm.trans (holder_eq_some_iff.mpr h')
  exact Option.some.inj this

theorem Current.mem_granted {log : List (LeaseEvent κ τ)} {k : κ} {t : τ} (h : Current log k t) :
    t ∈ granted log := by
  obtain ⟨pre, post, rfl, -⟩ := h
  simp [granted, LeaseEvent.granted?]

/-! ## Each grant finishes at most once -/

theorem granted_snoc (log : List (LeaseEvent κ τ)) (e : LeaseEvent κ τ) :
    granted (log ++ [e]) = granted log ++ e.granted?.toList := by
  cases e <;> simp [granted, LeaseEvent.granted?]

theorem finished_snoc (log : List (LeaseEvent κ τ)) (e : LeaseEvent κ τ) :
    finished (log ++ [e]) = finished log ++ e.finished?.toList := by
  cases e <;> simp [finished, LeaseEvent.finished?]

theorem Legal.init {log : List (LeaseEvent κ τ)} {e : LeaseEvent κ τ} (h : Legal (log ++ [e])) :
    Legal log := by
  intro pre post k t hlog
  exact h pre (post ++ [e]) k t (by simp [hlog])

theorem Legal.last {log : List (LeaseEvent κ τ)} {k : κ} {t : τ}
    (h : Legal (log ++ [.finish k t])) : Current log k t :=
  h log [] k t rfl

theorem Legal.snoc {log : List (LeaseEvent κ τ)} {e : LeaseEvent κ τ} (h : Legal log)
    (he : ∀ k t, e = .finish k t → Current log k t) : Legal (log ++ [e]) := by
  intro pre post k t heq
  rcases List.eq_nil_or_concat post with rfl | ⟨post', e', rfl⟩
  · obtain ⟨rfl, hlast⟩ := List.append_inj' heq rfl
    exact he k t (List.singleton_inj.mp hlast)
  · rw [List.concat_eq_append, ← List.cons_append, ← List.append_assoc] at heq
    obtain ⟨hlog, -⟩ := List.append_inj' heq rfl
    exact h pre post' k t hlog

theorem Legal.append_revokes {log : List (LeaseEvent κ τ)} (h : Legal log) (ks : List κ) :
    Legal (log ++ ks.map .revoke) := by
  induction ks using List.reverseRecOn with
  | nil => simpa using h
  | append_singleton ks k ih =>
      rw [List.map_append, ← List.append_assoc, List.map_singleton]
      exact ih.snoc (by simp)

/-- What a legal log with distinct grants keeps: a holder has been granted and has not finished, no
two keys share a holder, and only granted tokens have finished. -/
private structure Fresh [DecidableEq κ] (log : List (LeaseEvent κ τ)) : Prop where
  unfinished : ∀ k t, holder log k = some t → t ∉ finished log
  apart : ∀ k k' t, holder log k = some t → holder log k' = some t → k = k'
  sub : ∀ t ∈ finished log, t ∈ granted log
  nodup : (finished log).Nodup

section Fresh

variable [DecidableEq κ] {log : List (LeaseEvent κ τ)} {k : κ} {t : τ}

private theorem Fresh.revoke (hf : Fresh log) : Fresh (log ++ [.revoke k]) := by
  refine ⟨?_, ?_, ?_, ?_⟩
  · intro k' t' h
    rw [holder_snoc] at h
    split at h
    · cases h
    · simpa [finished_snoc, LeaseEvent.finished?] using hf.unfinished k' t' h
  · intro k₁ k₂ t' h₁ h₂
    rw [holder_snoc] at h₁ h₂
    split at h₁ <;> split at h₂ <;> first | cases h₁ | cases h₂ | exact hf.apart _ _ _ h₁ h₂
  · simpa [finished_snoc, granted_snoc, LeaseEvent.finished?, LeaseEvent.granted?] using hf.sub
  · simpa [finished_snoc, LeaseEvent.finished?] using hf.nodup

private theorem Fresh.finish (hf : Fresh log) (hcur : Current log k t) :
    Fresh (log ++ [.finish k t]) := by
  have hk : holder log k = some t := holder_eq_some_iff.mpr hcur
  refine ⟨?_, ?_, ?_, ?_⟩
  · intro k' t' h
    rw [holder_snoc] at h
    split at h
    · cases h
    · rename_i hne
      have hne' : t' ≠ t := fun heq => hne (hf.apart k k' t hk (heq ▸ h))
      simpa [finished_snoc, LeaseEvent.finished?, hne'] using hf.unfinished k' t' h
  · intro k₁ k₂ t' h₁ h₂
    rw [holder_snoc] at h₁ h₂
    split at h₁ <;> split at h₂ <;> first | cases h₁ | cases h₂ | exact hf.apart _ _ _ h₁ h₂
  · intro t' ht'
    simp only [finished_snoc, LeaseEvent.finished?, Option.toList_some, List.mem_append,
      List.mem_singleton] at ht'
    simp only [granted_snoc, LeaseEvent.granted?, Option.toList_none, List.append_nil]
    rcases ht' with ht' | rfl
    · exact hf.sub t' ht'
    · exact hcur.mem_granted
  · rw [finished_snoc]
    refine List.nodup_append.mpr ⟨hf.nodup, by simp [LeaseEvent.finished?], ?_⟩
    intro a ha b hb hab
    simp only [LeaseEvent.finished?, Option.toList_some, List.mem_singleton] at hb
    exact hf.unfinished k t hk (hb ▸ hab ▸ ha)

private theorem Fresh.grant (hf : Fresh log) (hnew : t ∉ granted log) :
    Fresh (log ++ [.grant k t]) := by
  have hmem : ∀ k' t', holder log k' = some t' → t' ∈ granted log :=
    fun k' t' h => (holder_eq_some_iff.mp h).mem_granted
  refine ⟨?_, ?_, ?_, ?_⟩
  · intro k' t' h
    rw [holder_snoc] at h
    simp only [finished_snoc, LeaseEvent.finished?, Option.toList_none, List.append_nil]
    split at h
    · cases h; exact fun hfin => hnew (hf.sub _ hfin)
    · exact hf.unfinished k' t' h
  · intro k₁ k₂ t' h₁ h₂
    rw [holder_snoc] at h₁ h₂
    split at h₁ <;> split at h₂
    · rename_i e₁ e₂; exact e₁.symm.trans e₂
    · cases h₁; exact absurd (hmem _ _ h₂) hnew
    · cases h₂; exact absurd (hmem _ _ h₁) hnew
    · exact hf.apart _ _ _ h₁ h₂
  · intro t' ht'
    simp only [finished_snoc, LeaseEvent.finished?, Option.toList_none, List.append_nil] at ht'
    simp only [granted_snoc, List.mem_append]
    exact Or.inl (hf.sub t' ht')
  · simpa [finished_snoc, LeaseEvent.finished?] using hf.nodup

private theorem Fresh.of_legal (hl : Legal log) (hg : (granted log).Nodup) : Fresh log := by
  induction log using List.reverseRecOn with
  | nil => exact ⟨by simp, by simp, by simp [finished], by simp [finished]⟩
  | append_singleton log e ih =>
      rw [granted_snoc] at hg
      have hf := ih hl.init hg.of_append_left
      cases e with
      | revoke k => exact hf.revoke
      | finish k t => exact hf.finish hl.last
      | grant k t =>
          apply hf.grant
          intro h
          exact (List.nodup_append.mp hg).2.2 t h t (by simp [LeaseEvent.granted?]) rfl

end Fresh

/-- When only holders finish and no token is granted twice, no token finishes twice. -/
theorem finished_nodup {log : List (LeaseEvent κ τ)} (hl : Legal log) (hg : (granted log).Nodup) :
    (finished log).Nodup := by
  classical exact (Fresh.of_legal hl hg).nodup

end Lease

end Tle.Lib
