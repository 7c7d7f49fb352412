/-
  Drafts — what staging makes true of transactions stays true wherever their operations go.

  Operations are made in one place: an edit appends one to an open transaction.  They are kept in
  two: in the transaction until it is closed, and from its commit on in the history, where undo and
  redo only move commands from one stack to the other.  So

    * a property that new transactions have and that no edit loses (`Upheld`) holds of every
      transaction that is open after a run (`drafts_ofContents`);
    * every command that is remembered holds the operations of such a transaction, and one that was
      not empty (`commands_ofContents`).

  Neither needs an invariant of the trace, and neither depends on whether commits succeed.
-/
import RegionAtlas.Proofs.Course

namespace RegionAtlas

/-- **A property that staging gives to transactions**: new ones have it, and no edit loses it. -/
structure Transaction.Upheld (P : Transaction → Prop) : Prop where
  start : ∀ description, P (.start description)
  stages : ∀ {tx tx' : Transaction} {owner : TraceId} {c : Contents} {k k' : Counters} {e : Edit}
    {what : Staged}, P tx → tx.Stages owner c k e k' tx' what → P tx'

/-- A command that holds the operations of a transaction that has a property and is not empty. -/
def Command.Stems (command : Command) (P : Transaction → Prop) : Prop :=
  ∃ tx, P tx ∧ tx.isEmpty = false ∧ command.operations = tx.operations

/-- A command that a history remembers, on either stack. -/
def History.Keeps (h : History) (command : Command) : Prop :=
  command ∈ h.done ∨ command ∈ h.undone

namespace Trace

variable {t : Trace} {s : Step}

/-! ## One step -/

/-- A commit, however it ends, opens and changes no transaction. -/
theorem draft?_commit {d j : DraftId} {tx : Transaction}
    (h : (t.commit j).1.draft? d = some tx) : t.draft? d = some tx := by
  cases hj : t.draft? j with
  | none =>
    rw [commit_notOpen hj] at h
    exact h
  | some txj =>
    have hdrafts : (t.commit j).1.drafts = (t.abort j).drafts := by
      rw [commit_of_open hj, commitOperations]
      dsimp only
      split
      · rfl
      · split <;> rfl
    have habort : (t.abort j).draft? d = some tx := by
      rw [draft?, hdrafts] at h
      exact h
    rw [draft?_abort] at habort
    split at habort
    · cases habort
    · exact habort

/-- **Where an open transaction comes from**: it was open before, or has just been opened, or an
edit was staged in it. -/
theorem draft?_step {d : DraftId} {tx' : Transaction} (h : (t.step s).1.draft? d = some tx') :
    t.draft? d = some tx' ∨ (∃ description, tx' = .start description) ∨
      ∃ tx e k what, t.draft? d = some tx ∧
        tx.Stages t.id t.contents t.counters e k tx' what := by
  cases s with
  | begin description =>
    have hbegun : (t.begin description).1.draft? d = some tx' := h
    rw [draft?_begin] at hbegun
    split at hbegun
    · exact .inr (.inl ⟨description, (Option.some.inj hbegun).symm⟩)
    · exact .inl hbegun
  | edit j e =>
    have hedited : (t.edit j e).1.draft? d = some tx' := h
    cases hj : t.draft? j with
    | none =>
      rw [edit, hj] at hedited
      exact .inl hedited
    | some tx =>
      rcases edit_cases hj e with ⟨tx₁, what, k, hstages, hedit⟩ | ⟨why, hedit⟩
      · rw [hedit] at hedited
        rcases draft?_staged hedited with ⟨rfl, rfl⟩ | ⟨-, hold⟩
        · exact .inr (.inr ⟨tx, e, k, what, hj, hstages⟩)
        · exact .inl hold
      · rw [hedit] at hedited
        exact .inl hedited
  | commit j => exact .inl (draft?_commit h)
  | abort j =>
    have haborted : (t.abort j).draft? d = some tx' := h
    rw [draft?_abort] at haborted
    split at haborted
    · cases haborted
    · exact .inl haborted
  | undo =>
    have hundone : t.undo.1.drafts = t.drafts := by
      unfold undo
      split <;> rfl
    have hfind : t.undo.1.draft? d = some tx' := h
    rw [draft?, hundone] at hfind
    exact .inl hfind
  | redo =>
    have hredone : t.redo.1.drafts = t.drafts := by
      unfold redo
      dsimp only
      split
      · rfl
      · split <;> rfl
    have hfind : t.redo.1.draft? d = some tx' := h
    rw [draft?, hredone] at hfind
    exact .inl hfind
  | clearHistory => exact .inl h
  | subscribe l => exact .inl h
  | unsubscribe id => exact .inl h

/-- **Where a remembered command comes from**: it was remembered before, or is what an open
transaction has staged that is not empty. -/
theorem keeps_step {command : Command} (h : (t.step s).1.history.Keeps command) :
    t.history.Keeps command ∨
      ∃ d tx, t.draft? d = some tx ∧ tx.isEmpty = false ∧
        command = ⟨tx.description, tx.operations⟩ := by
  cases s with
  | edit d e =>
    have hsame : (t.edit d e).1.history = t.history := by
      cases hd : t.draft? d with
      | none => rw [edit, hd]
      | some tx =>
        rcases edit_cases hd e with ⟨tx', what, k, -, hedit⟩ | ⟨why, hedit⟩
        · rw [hedit]
        · rw [hedit]
    have hkept : (t.edit d e).1.history.Keeps command := h
    rw [hsame] at hkept
    exact .inl hkept
  | commit d =>
    have hkept : (t.commit d).1.history.Keeps command := h
    cases hd : t.draft? d with
    | none =>
      rw [commit_notOpen hd] at hkept
      exact .inl hkept
    | some tx =>
      rw [commit_of_open hd, commitOperations] at hkept
      dsimp only at hkept
      split at hkept
      · exact .inl hkept
      · next hne =>
        split at hkept
        · -- recording keeps some of the commands done and the new one, and none undone
          rcases hkept with hdone | hundone
          · rcases List.mem_cons.mp (List.mem_of_mem_take hdone) with hnew | hold
            · exact .inr ⟨d, tx, hd, Bool.not_eq_true _ ▸ hne, hnew⟩
            · exact .inl (.inl hold)
          · cases hundone
        · exact .inl hkept
  | undo =>
    have hkept : t.undo.1.history.Keeps command := h
    unfold undo at hkept
    split at hkept
    · exact .inl hkept
    · next last rest hdone =>
      rcases hkept with hrest | hmoved
      · exact .inl (.inl (hdone ▸ List.mem_cons_of_mem _ hrest))
      · rcases List.mem_cons.mp hmoved with rfl | hold
        · exact .inl (.inl (hdone ▸ List.mem_cons_self))
        · exact .inl (.inr hold)
  | redo =>
    have hkept : t.redo.1.history.Keeps command := h
    unfold redo at hkept
    dsimp only at hkept
    split at hkept
    · exact .inl hkept
    · next next rest hundone =>
      split at hkept
      · rcases hkept with hmoved | hrest
        · rcases List.mem_cons.mp hmoved with rfl | hold
          · exact .inl (.inr (hundone ▸ List.mem_cons_self))
          · exact .inl (.inl hold)
        · exact .inl (.inr (hundone ▸ List.mem_cons_of_mem _ hrest))
      · exact .inl hkept
  | clearHistory =>
    rcases h with hdone | hundone
    · cases hdone
    · cases hundone
  | begin description => exact .inl h
  | abort d => exact .inl h
  | subscribe l => exact .inl h
  | unsubscribe id => exact .inl h

/-! ## Runs -/

variable {P : Transaction → Prop}

/-- What is upheld holds of every transaction that is open after a run, if it holds of those that
are open before it. -/
theorem drafts_run (hP : Transaction.Upheld P) (hopen : ∀ d tx, t.draft? d = some tx → P tx)
    (steps : List Step) : ∀ d tx, (t.run steps).draft? d = some tx → P tx := by
  induction steps generalizing t with
  | nil => exact hopen
  | cons s rest ih =>
    refine ih (t := (t.step s).1) ?_
    intro d tx' hd
    rcases draft?_step hd with hold | ⟨description, rfl⟩ | ⟨tx, e, k, what, hbefore, hstages⟩
    · exact hopen d tx' hold
    · exact hP.start description
    · exact hP.stages (hopen d tx hbefore) hstages

/-- Every command that is remembered after a run holds the operations of a transaction with what is
upheld, if that is so before it. -/
theorem commands_run (hP : Transaction.Upheld P) (hopen : ∀ d tx, t.draft? d = some tx → P tx)
    (hkept : ∀ command, t.history.Keeps command → command.Stems P) (steps : List Step) :
    ∀ command, (t.run steps).history.Keeps command → command.Stems P := by
  induction steps generalizing t with
  | nil => exact hkept
  | cons s rest ih =>
    have hopen' : ∀ d tx, (t.step s).1.draft? d = some tx → P tx := drafts_run hP hopen [s]
    refine ih (t := (t.step s).1) hopen' ?_
    intro command hcommand
    rcases keeps_step hcommand with hold | ⟨d, tx, hd, hne, rfl⟩
    · exact hkept command hold
    · exact ⟨tx, hopen d tx hd, hne, rfl⟩

/-- **What is upheld holds of every open transaction**, along every run from contents. -/
theorem drafts_ofContents (hP : Transaction.Upheld P) (id : TraceId) (name : String)
    (c : Contents) (limit : Nat) (steps : List Step) :
    ∀ d tx, ((Trace.ofContents id name c limit).run steps).draft? d = some tx → P tx := by
  refine drafts_run hP ?_ steps
  intro d tx hd
  cases hd

/-- **Every remembered command stems from a transaction with what is upheld**, along every run from
contents. -/
theorem commands_ofContents (hP : Transaction.Upheld P) (id : TraceId) (name : String)
    (c : Contents) (limit : Nat) (steps : List Step) :
    ∀ command, ((Trace.ofContents id name c limit).run steps).history.Keeps command →
      command.Stems P := by
  refine commands_run hP ?_ ?_ steps
  · intro d tx hd
    cases hd
  · intro command hcommand
    rcases hcommand with hdone | hundone
    · cases hdone
    · cases hundone

end Trace

end RegionAtlas
