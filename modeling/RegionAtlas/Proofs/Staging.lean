/-
  Staging — what one edit does to the transaction it is made in, and which numbers it takes.

  An edit that succeeds appends exactly one operation.  `Stages` says which, once for each kind of
  edit, with everything that was checked on the way; nothing later opens the edits again.

  Numbers: a subject is *covered* by counters that will never hand its number out
  (`Counters.Covers`).  Counters only ever come to cover more (`covers_edit`), a number that is
  taken was not covered before (`takeRegion?_spec`, `takeMapping?_spec`), and the counters of a new
  trace cover all that it starts with (`covers_above`).  The reserved number needs a case of its
  own: counters that have reached it hand nothing out any more, so they cover everything.
-/
import RegionAtlas.Ledger.Transaction
import RegionAtlas.Proofs.Reversal

namespace RegionAtlas

open Change (Subject)

/-! ## Counters -/

/-- The number of a subject. -/
def Change.Subject.raw : Subject → UInt64
  | .region id => id.raw
  | .mapping id => id.raw

namespace Counters

/-- A subject whose number will never be handed out. -/
def Covers (k : Counters) : Subject → Prop
  | .region id => k.region = reservedId ∨ id.raw < k.region
  | .mapping id => k.mapping = reservedId ∨ id.raw < k.mapping

/-- The number after one that is not reserved is higher. -/
theorem lt_succ {n : UInt64} (h : n ≠ reservedId) : n < n + 1 := by
  rw [UInt64.lt_iff_toNat_lt, UInt64.toNat_add]
  have hne : n.toNat ≠ 0xFFFFFFFFFFFFFFFF := fun heq => h (UInt64.toNat_inj.mp heq)
  have hlt : n.toNat < 2 ^ 64 := n.toNat_lt
  have hone : (1 : UInt64).toNat = 1 := rfl
  omega

/-- The region number that is taken was not covered, is covered afterwards, and what was covered
before still is. -/
theorem takeRegion?_spec {k k' : Counters} {id : RegionId} (h : k.takeRegion? = some (id, k')) :
    id.raw ≠ reservedId ∧ ¬ k.Covers (.region id) ∧ k'.Covers (.region id) ∧
      ∀ s, k.Covers s → k'.Covers s := by
  unfold takeRegion? at h
  split at h
  · cases h
  · next hfree =>
    cases h
    refine ⟨hfree, ?_, Or.inr (lt_succ hfree), fun s hs => ?_⟩
    · rintro (hres | hlt)
      · exact hfree hres
      · exact UInt64.lt_irrefl _ hlt
    · cases s with
      | mapping _ => exact hs
      | region _ =>
        rcases hs with hres | hlt
        · exact absurd hres hfree
        · exact Or.inr (UInt64.lt_trans hlt (lt_succ hfree))

/-- The mapping number that is taken was not covered, is covered afterwards, and what was covered
before still is. -/
theorem takeMapping?_spec {k k' : Counters} {id : MappingId}
    (h : k.takeMapping? = some (id, k')) :
    id.raw ≠ reservedId ∧ ¬ k.Covers (.mapping id) ∧ k'.Covers (.mapping id) ∧
      ∀ s, k.Covers s → k'.Covers s := by
  unfold takeMapping? at h
  split at h
  · cases h
  · next hfree =>
    cases h
    refine ⟨hfree, ?_, Or.inr (lt_succ hfree), fun s hs => ?_⟩
    · rintro (hres | hlt)
      · exact hfree hres
      · exact UInt64.lt_irrefl _ hlt
    · cases s with
      | region _ => exact hs
      | mapping _ =>
        rcases hs with hres | hlt
        · exact absurd hres hfree
        · exact Or.inr (UInt64.lt_trans hlt (lt_succ hfree))

/-- A number at most `last` is covered by counters that start after it. -/
theorem covered_after {n last : UInt64} (h : n = last ∨ n < last) :
    Contents.after last = reservedId ∨ n < Contents.after last := by
  unfold Contents.after
  split
  · next hres => exact Or.inl hres
  · next hres =>
    rcases h with rfl | hlt
    · exact Or.inr (lt_succ hres)
    · exact Or.inr (UInt64.lt_trans hlt (lt_succ hres))

/-- The counters of a trace that starts from contents cover everything in them. -/
theorem covers_above {c : Contents} {s : Subject} (h : c.Holds s) : (above c).Covers s := by
  cases s with
  | region id =>
    obtain ⟨r, hr⟩ := h
    obtain ⟨last, hlast, hle⟩ := Table.exists_lastKey?_of_find? hr
    show c.nextRegion = reservedId ∨ id.raw < c.nextRegion
    rw [Contents.nextRegion, hlast]
    refine covered_after (hle.imp (congrArg RegionId.raw) fun hlt => ?_)
    exact compareOfLessAndEq_eq_lt.mp hlt
  | mapping id =>
    obtain ⟨m, hm⟩ := h
    obtain ⟨last, hlast, hle⟩ := Table.exists_lastKey?_of_find? hm
    show c.nextMapping = reservedId ∨ id.raw < c.nextMapping
    rw [Contents.nextMapping, hlast]
    refine covered_after (hle.imp (congrArg MappingId.raw) fun hlt => ?_)
    exact compareOfLessAndEq_eq_lt.mp hlt

end Counters

/-! ## Edits -/

namespace Transaction

variable {tx tx' : Transaction} {owner : TraceId} {c : Contents} {k k' : Counters} {e : Edit}
  {what : Staged}

/-- **The cases of an edit that succeeds**: the counters and the transaction after it, what it
staged, and what was checked. -/
inductive Stages (tx : Transaction) (owner : TraceId) (c : Contents) (k : Counters) :
    Edit → Counters → Transaction → Staged → Prop where
  | region {r : Region} {k' : Counters} (owned : r.owner = owner)
      (free : tx.regionConflict? c r.range r.lifespan = none)
      (taken : k.takeRegion? = some (r.id, k')) :
      Stages tx owner c k (.addRegion r.name r.lifespan r.range r.permissions) k'
        (tx.stageRegion r) (.region r.id)
  | lifespan {id : RegionId} {stop : Snap} {r : Region} {new : Lifespan}
      (found : tx.region? c id = some r) (live : r.lifespan.isOpen = true)
      (closed : r.lifespan.closedAt? stop = some new) :
      Stages tx owner c k (.destroyRegion id stop) k (tx.stageLifespan id r new) .destroyed
  | mapping {m : Mapping} {range : AddressRange} {lifespan : Lifespan} {program : String}
      {place : StaticAddress} {k' : Counters}
      (taken : k.takeMapping? = some (m.id, k'))
      (fits : Mapping.fit m.id range lifespan program place = .ok m)
      (free : tx.mappingConflict? c m = none) :
      Stages tx owner c k (.addMapping range lifespan program place) k' (tx.stageMapping m)
        (.mapping m.id)

/-- A mapping that fits has the number and the range it was made for. -/
theorem fit_spec {id : MappingId} {range : AddressRange} {lifespan : Lifespan}
    {program : String} {place : StaticAddress} {m : Mapping}
    (h : Mapping.fit id range lifespan program place = .ok m) :
    m.id = id ∧ m.traceRange = range := by
  unfold Mapping.fit at h
  split at h
  · next made hmade =>
    cases h
    obtain ⟨side, -, rfl⟩ := Option.map_eq_some_iff.mp hmade
    exact ⟨rfl, rfl⟩
  · cases h

theorem stages_of_edit (h : (tx.edit owner c k e).result = .ok (tx', what)) :
    Stages tx owner c k e (tx.edit owner c k e).counters tx' what := by
  cases e with
  | addRegion name lifespan range permissions =>
    simp only [edit, addRegion] at h ⊢
    split at h
    · cases h
    · next hfree =>
      split at h
      · cases h
      · next id k' htaken =>
        cases h
        exact .region (r := ⟨id, owner, name, range, permissions, lifespan⟩) rfl hfree htaken
  | destroyRegion id stop =>
    simp only [edit, destroyRegion] at h ⊢
    split at h
    · cases h
    · next r hfound =>
      split at h
      · next hlive =>
        split at h
        · cases h
        · next new hclosed =>
          cases h
          rw [if_pos hlive]
          exact .lifespan hfound hlive hclosed
      · cases h
  | addMapping range lifespan program place =>
    simp only [edit, addMapping] at h ⊢
    split at h
    · cases h
    · next id k' htaken =>
      split at h
      · cases h
      · next m hfits =>
        split at h
        · cases h
        · next hfree =>
          cases h
          obtain ⟨rfl, -⟩ := fit_spec hfits
          exact .mapping htaken hfits hfree

theorem edit_of_stages (h : Stages tx owner c k e k' tx' what) :
    tx.edit owner c k e = ⟨k', .ok (tx', what)⟩ := by
  cases h with
  | @region r _ howned hfree htaken =>
    subst howned
    simp only [edit, addRegion, hfree, htaken]
  | lifespan hfound hlive hclosed =>
    simp only [edit, destroyRegion, hfound, hlive, hclosed, if_true]
  | mapping htaken hfits hfree =>
    simp only [edit, addMapping, htaken, hfits, hfree]

/-- Whatever becomes of an edit, the counters after it cover what they covered before. -/
theorem covers_edit {s : Subject} (h : k.Covers s) : (tx.edit owner c k e).counters.Covers s := by
  cases e with
  | addRegion name lifespan range permissions =>
    simp only [edit, addRegion]
    split
    · exact h
    · split
      · exact h
      · next htaken => exact (Counters.takeRegion?_spec htaken).2.2.2 s h
  | destroyRegion id stop =>
    simp only [edit, destroyRegion]
    split
    · exact h
    · split
      · split <;> exact h
      · exact h
  | addMapping range lifespan program place =>
    simp only [edit, addMapping]
    split
    · exact h
    · next htaken =>
      have hmore := (Counters.takeMapping?_spec htaken).2.2.2 s h
      split
      · exact hmore
      · split <;> exact hmore

theorem covers_of_stages (h : Stages tx owner c k e k' tx' what) {s : Subject}
    (hs : k.Covers s) : k'.Covers s := by
  have hcovers : (tx.edit owner c k e).counters.Covers s := covers_edit hs
  rwa [edit_of_stages h] at hcovers

/-! ## What a transaction shows of the regions it touched -/

theorem find?_stageRegion (tx : Transaction) (r : Region) (id : RegionId) :
    (tx.stageRegion r).regions.find? id =
      if r.id = id then some r else tx.regions.find? id := by
  show (tx.regions.insert r.id r).find? id = _
  rw [Table.find?_insert]
  simp only [Std.LawfulEqCmp.compare_eq_iff_eq]

theorem find?_stageLifespan (tx : Transaction) (id : RegionId) (r : Region) (new : Lifespan)
    (j : RegionId) :
    (tx.stageLifespan id r new).regions.find? j =
      if id = j then some (r.withLifespan new) else tx.regions.find? j := by
  show (tx.regions.insert id (r.withLifespan new)).find? j = _
  rw [Table.find?_insert]
  simp only [Std.LawfulEqCmp.compare_eq_iff_eq]

/-! ## What a transaction makes -/

/-- **An edit makes nothing, or something whose number was still free**, and it makes it last. -/
theorem made_of_stages (h : Stages tx owner c k e k' tx' what) :
    Operation.made tx'.operations = Operation.made tx.operations ∨
      ∃ s, Operation.made tx'.operations = Operation.made tx.operations ++ [s] ∧
        ¬ k.Covers s ∧ k'.Covers s := by
  cases h with
  | @region r _ howned hfree htaken =>
    obtain ⟨-, hfree, hcovered, -⟩ := Counters.takeRegion?_spec htaken
    exact .inr ⟨.region r.id, Operation.made_append _ _, hfree, hcovered⟩
  | lifespan hfound hlive hclosed =>
    refine .inl ((Operation.made_append _ _).trans ?_)
    exact List.append_nil _
  | @mapping m _ _ _ _ _ htaken hfits hfree =>
    obtain ⟨-, hfree, hcovered, -⟩ := Counters.takeMapping?_spec htaken
    exact .inr ⟨.mapping m.id, Operation.made_append _ _, hfree, hcovered⟩

/-- What a transaction makes after an edit: what it made before, or the one thing whose number was
free. -/
theorem mem_made_of_stages (h : Stages tx owner c k e k' tx' what) {s : Subject}
    (hs : s ∈ Operation.made tx'.operations) :
    s ∈ Operation.made tx.operations ∨ ¬ k.Covers s ∧ k'.Covers s := by
  rcases made_of_stages h with hsame | ⟨y, hmore, hfree, hcovered⟩
  · exact .inl (hsame ▸ hs)
  · rw [hmore] at hs
    rcases List.mem_append.mp hs with hold | hnew
    · exact .inl hold
    · obtain rfl := List.mem_singleton.mp hnew
      exact .inr ⟨hfree, hcovered⟩

/-- An edit makes nothing a second time, if the counters cover what was made before. -/
theorem nodup_made_of_stages (h : Stages tx owner c k e k' tx' what)
    (hnodup : (Operation.made tx.operations).Nodup)
    (hcovered : ∀ s ∈ Operation.made tx.operations, k.Covers s) :
    (Operation.made tx'.operations).Nodup := by
  rcases made_of_stages h with hsame | ⟨y, hmore, hfree, -⟩
  · rw [hsame]
    exact hnodup
  · rw [hmore, List.nodup_append]
    refine ⟨hnodup, List.pairwise_singleton _ y, fun x hx z hz hxz => ?_⟩
    obtain rfl := List.mem_singleton.mp hz
    subst hxz
    exact hfree (hcovered x hx)

/-- A mapping is staged under a number that was still free. -/
theorem not_covers_of_stages (h : Stages tx owner c k e k' tx' what) {id : MappingId}
    (hwhat : what = .mapping id) : ¬ k.Covers (.mapping id) := by
  cases h with
  | region _ _ _ => cases hwhat
  | lifespan _ _ _ => cases hwhat
  | mapping htaken _ _ =>
    cases hwhat
    exact (Counters.takeMapping?_spec htaken).2.1

end Transaction

end RegionAtlas
