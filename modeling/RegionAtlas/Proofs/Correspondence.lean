/-
  Correspondence — mappings tie trace addresses and static addresses one to one.

  At every snap a trace address belongs to at most one mapping, and so does a static address of one
  space of one program; and a mapping has as many addresses on either side.  This holds after every
  run of calls, proposals included, whatever contents the trace started from.

  Mappings are never changed, so all that can go wrong is adding one.  It is added in two places,
  by the records of a database and by operations, and both check the same two things: that its
  sides reach equally far and that it conflicts with nothing there is.  One lemma serves both
  (`corresponds_insertMapping`); undo and redo return to contents that were in force before.
-/
import RegionAtlas.Proofs.Calls
import RegionAtlas.Proofs.Sides

namespace RegionAtlas

/-- No two mappings of contents have a property. -/
def Contents.AtMostOne (c : Contents) (P : Mapping → Prop) : Prop :=
  ∀ (id₁ id₂ : MappingId) (m₁ m₂ : Mapping),
    c.mapping? id₁ = some m₁ → c.mapping? id₂ = some m₂ → P m₁ → P m₂ → id₁ = id₂

/-- **Mappings that are a correspondence**: each is stored under its own number and is consistent,
and no two conflict. -/
structure Contents.Corresponds (c : Contents) : Prop where
  keyed : ∀ id m, c.mapping? id = some m → m.id = id
  consistent : ∀ id m, c.mapping? id = some m → m.isConsistent = true
  apart : ∀ id₁ id₂ m₁ m₂, c.mapping? id₁ = some m₁ → c.mapping? id₂ = some m₂ → id₁ ≠ id₂ →
    m₁.conflictsWith m₂ = false

namespace Contents.Corresponds

variable {c : Contents}

/-- Mappings that would meet are one mapping. -/
theorem atMostOne (h : c.Corresponds) {P : Mapping → Prop}
    (hmeet : ∀ m₁ m₂, P m₁ → P m₂ → m₁.conflictsWith m₂ = true) : c.AtMostOne P := by
  intro id₁ id₂ m₁ m₂ hm₁ hm₂ hP₁ hP₂
  by_contra hne
  have hfree : m₁.conflictsWith m₂ = false := h.apart id₁ id₂ m₁ m₂ hm₁ hm₂ hne
  rw [hmeet m₁ m₂ hP₁ hP₂] at hfree
  cases hfree

/-- **A trace address has at most one mapping at a snap.** -/
theorem trace_atMostOne (h : c.Corresponds) (s : Snap) (a : UInt64) :
    c.AtMostOne fun m => m.lifespan.contains s = true ∧ m.traceRange.contains a = true := by
  refine h.atMostOne ?_
  rintro m₁ m₂ ⟨halive₁, ha₁⟩ ⟨halive₂, ha₂⟩
  exact Mapping.conflictsWith_iff.mpr ⟨⟨s, halive₁, halive₂⟩, .inl ⟨a, ha₁, ha₂⟩⟩

/-- **A static address has at most one mapping at a snap.** -/
theorem static_atMostOne (h : c.Corresponds) (s : Snap) (program space : String) (a : UInt64) :
    c.AtMostOne fun m => m.lifespan.contains s = true ∧ m.program = program ∧ m.space = space ∧
      m.staticRange.contains a = true := by
  refine h.atMostOne ?_
  rintro m₁ m₂ ⟨halive₁, rfl, rfl, ha₁⟩ ⟨halive₂, hprogram, hspace, ha₂⟩
  exact Mapping.conflictsWith_iff.mpr
    ⟨⟨s, halive₁, halive₂⟩, .inr ⟨hprogram.symm, hspace.symm, a, ha₁, ha₂⟩⟩

/-- Either side of a mapping has as many addresses as the other. -/
theorem card_sides (h : c.Corresponds) {id : MappingId} {m : Mapping}
    (hm : c.mapping? id = some m) :
    Nat.card {a // m.traceRange.contains a = true} =
      Nat.card {a // m.staticRange.contains a = true} := by
  rw [AddressRange.card_contains, AddressRange.card_contains]
  exact Mapping.isConsistent_iff.mp (h.consistent id m hm)

/-- **Adding a mapping** that is consistent and conflicts with nothing. -/
theorem insertMapping (h : c.Corresponds) {m : Mapping} (hconsistent : m.isConsistent = true)
    (hfree : c.mappingConflict? m = none) : (c.insertMapping m).Corresponds := by
  have hnone : ∀ id n, c.mapping? id = some n → n.conflictsWith m = false := by
    intro id n hn
    exact firstMappingConflict?_eq_none.mp hfree n (Contents.mem_mappings.mpr ⟨id, hn⟩)
  -- what is found afterwards is the new mapping, or was found before
  have hfound : ∀ id n, (c.insertMapping m).mapping? id = some n →
      (m.id = id ∧ n = m) ∨ c.mapping? id = some n := by
    intro id n hn
    rw [Contents.mapping?_insertMapping] at hn
    split at hn
    · next hid => exact .inl ⟨hid, (Option.some.inj hn).symm⟩
    · exact .inr hn
  refine { keyed := ?_, consistent := ?_, apart := ?_ }
  · intro id n hn
    rcases hfound id n hn with ⟨hid, rfl⟩ | hold
    · exact hid
    · exact h.keyed id n hold
  · intro id n hn
    rcases hfound id n hn with ⟨-, rfl⟩ | hold
    · exact hconsistent
    · exact h.consistent id n hold
  · intro id₁ id₂ m₁ m₂ hm₁ hm₂ hne
    rcases hfound id₁ m₁ hm₁ with ⟨hid₁, rfl⟩ | hold₁
    · rcases hfound id₂ m₂ hm₂ with ⟨hid₂, -⟩ | hold₂
      · exact absurd (hid₁.symm.trans hid₂) hne
      · rw [Mapping.conflictsWith_comm]
        exact hnone id₂ m₂ hold₂
    · rcases hfound id₂ m₂ hm₂ with ⟨-, rfl⟩ | hold₂
      · exact hnone id₁ m₁ hold₁
      · exact h.apart id₁ id₂ m₁ m₂ hold₁ hold₂ hne

/-- **Being a correspondence is lasting.** -/
theorem lasting : Lasting Contents.Corresponds where
  empty := by
    refine { keyed := ?_, consistent := ?_, apart := ?_ }
    · intro id m hm
      cases hm
    · intro id m hm
      cases hm
    · intro id₁ id₂ m₁ m₂ hm₁
      cases hm₁
  ownedBy c id h := ⟨h.keyed, h.consistent, h.apart⟩
  region c r c' h hadd := by
    obtain ⟨-, -, -, rfl⟩ := Database.addRegion_spec hadd
    exact ⟨h.keyed, h.consistent, h.apart⟩
  mapping c m c' h hadd := by
    obtain ⟨-, -, hconsistent, hfree, rfl⟩ := Database.addMapping_spec hadd
    exact h.insertMapping hconsistent hfree
  operation R p op c c' change hrecords _ h hfits := by
    cases hfits with
    | createRegion _ => exact ⟨h.keyed, h.consistent, h.apart⟩
    | setLifespan new _ => exact ⟨h.keyed, h.consistent, h.apart⟩
    | @createMapping m hfree =>
      cases hrecords with
      | mapping hfit _ => exact h.insertMapping (Mapping.isConsistent_of_fit hfit) hfree

/-- The mappings are a correspondence after every run of calls. -/
theorem calls (hc : c.Attained) (id : TraceId) (name : String) (limit : Nat)
    (calls : List Trace.Call) :
    ((Trace.ofContents id name c limit).calls calls).contents.Corresponds :=
  lasting.attained (attained_of_calls hc id name limit calls)

end Contents.Corresponds

/-- **Mappings are a correspondence along every run** of a trace that starts from contents there can
be, whatever it is asked to do: either side of a mapping has as many addresses, at every snap a
trace address has at most one mapping, and a static address of one space of one program has at most
one. -/
theorem mappings_exclusive {c : Contents} (hc : c.Attained) (id : TraceId) (name : String)
    (limit : Nat) (calls : List Trace.Call) :
    let t := (Trace.ofContents id name c limit).calls calls
    (∀ mid m, t.contents.mapping? mid = some m →
      Nat.card {a // m.traceRange.contains a = true} =
        Nat.card {a // m.staticRange.contains a = true}) ∧
    (∀ s a, t.contents.AtMostOne fun m =>
      m.lifespan.contains s = true ∧ m.traceRange.contains a = true) ∧
    (∀ s program space a, t.contents.AtMostOne fun m =>
      m.lifespan.contains s = true ∧ m.program = program ∧ m.space = space ∧
        m.staticRange.contains a = true) ∧
    t.contents.Attained := by
  intro t
  have h : t.contents.Corresponds := .calls hc id name limit calls
  exact ⟨fun mid m hm => h.card_sides hm, h.trace_atMostOne, h.static_atMostOne,
    attained_of_calls hc id name limit calls⟩

/-- A proposal for two regions, committed while another transaction has staged a mapping that it
leaves no room for, and undone and redone before that one is tried. -/
def surveyCalls : List Trace.Call :=
  let text : Region :=
    ⟨⟨0⟩, ⟨1⟩, "text", ⟨0xa000, 0xafff, by decide⟩, ⟨true, false, true⟩, .since 0⟩
  let data : Region :=
    ⟨⟨1⟩, ⟨1⟩, "data", ⟨0xb000, 0xbfff, by decide⟩, ⟨true, true, false⟩, .since 0⟩
  let low : Block := ⟨"low", "ram", ⟨0x400000, 0x400fff, by decide⟩⟩
  let high : Block := ⟨"high", "ram", ⟨0x500000, 0x5007ff, by decide⟩⟩
  [.step (.begin "regions"),
   .step (.edit ⟨0⟩ (.createRegion text.name text.range 0 text.permissions)),
   .step (.edit ⟨0⟩ (.createRegion data.name data.range 0 data.permissions)),
   .step (.commit ⟨0⟩), .step (.begin "late"),
   .step (.edit ⟨1⟩ (.addMapping ⟨0x9000, 0x9fff, by decide⟩ (.since 5) "echo" ⟨"ram", 0x4ff900⟩)),
   .commitProposal ⟨"echo", [⟨text, some low, true⟩, ⟨data, some high, true⟩], ⟨2, 6⟩⟩
     ⟨"echo", [low, high]⟩ 3,
   .step .undo, .step .redo, .step (.commit ⟨1⟩)]

/-- The two mappings of the proposal are what there is in the end, the smaller block deciding how
far the second reaches. -/
theorem survey_exclusive :
    let t := (Trace.ofContents ⟨1⟩ "echo" .empty 50).calls surveyCalls
    t.contents.mappings.values.map (fun m => (m.traceRange.size, m.staticRange.size)) =
        [(0x1000, 0x1000), (0x800, 0x800)] ∧
      (∀ s a, t.contents.AtMostOne fun m =>
        m.lifespan.contains s = true ∧ m.traceRange.contains a = true) ∧
      t.contents.Attained := by
  intro t
  obtain ⟨-, htrace, -, hattained⟩ := mappings_exclusive .empty ⟨1⟩ "echo" 50 surveyCalls
  exact ⟨by decide, htrace, hattained⟩

end RegionAtlas
