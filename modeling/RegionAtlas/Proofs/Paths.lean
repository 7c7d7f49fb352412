/-
  Paths — where paths lead after a file is written.

  Directories are known by what is in them, and a file that is written gets in.  So it has to be
  shown that writing makes no directory, or else a path could lead somewhere else afterwards than it
  did before.

  1. A path that leads somewhere does so part by part (`Leads`).
  2. It leads through directories only: all those above the place it leads to are there
     (`Standing`, `Leads.reachable`).
  3. The directories that the path of a file begins with are those above it.  They were there before
     it was written, and no other directory comes to be there (`hasDirectory_put`).
  4. So a path that led somewhere leads there still (`leads_put`), and what it finds is what it
     found before, unless it leads to the file that was written.

  Parts of a path hold no slash, which is why the text of a path tells its parts (`splitOn_pathOf`).
-/
import Mathlib.Data.List.Basic
import RegionAtlas.Archive.Files
import RegionAtlas.Ledger.Lookup

namespace RegionAtlas

namespace Files

/-! ## Parts of a path -/

/-- No part holds a slash. -/
def SlashFree (parts : List String) : Prop := ∀ part ∈ parts, '/' ∉ part.toList

/-- Slashes are looked for part by part. -/
theorem slashFree_cons {part : String} {parts : List String} :
    SlashFree (part :: parts) ↔ '/' ∉ part.toList ∧ SlashFree parts := List.forall_mem_cons

/-- What a list is split into does not hold what it is split at. -/
theorem not_mem_of_mem_splitOn {a : Char} {text part : List Char} (h : part ∈ text.splitOn a) :
    a ∉ part := by
  induction text generalizing part with
  | nil =>
    rw [List.splitOn_nil, List.mem_singleton] at h
    rw [h]
    exact List.not_mem_nil
  | cons c rest ih =>
    rw [List.splitOn_cons_eq_if_modifyHead] at h
    split at h
    · rcases List.mem_cons.mp h with rfl | h
      · exact List.not_mem_nil
      · exact ih h
    · next hother =>
      -- the first part gets the character, the others are as they were
      cases hsplit : rest.splitOn a with
      | nil => exact absurd hsplit (List.splitOn_ne_nil a rest)
      | cons first others =>
        rw [hsplit, List.modifyHead_cons] at h
        rcases List.mem_cons.mp h with rfl | h
        · intro hin
          rcases List.mem_cons.mp hin with rfl | hin
          · exact hother (beq_self_eq_true _)
          · exact ih (hsplit ▸ List.mem_cons_self) hin
        · exact ih (hsplit ▸ List.mem_cons_of_mem _ h)

/-- The parts of a path hold no slash, since it was cut at them. -/
theorem slashFree_startOf (path : String) : SlashFree (startOf path).2 := by
  have hparts : (startOf path).2 = (path.toList.splitOn '/').map String.ofList := by
    rw [startOf]
    split <;> rfl
  intro part hpart
  rw [hparts] at hpart
  obtain ⟨chars, hchars, rfl⟩ := List.mem_map.mp hpart
  rw [String.toList_ofList]
  exact not_mem_of_mem_splitOn hchars

/-- **The text of a path tells its parts.** -/
theorem splitOn_pathOf {parts : List String} (h : SlashFree parts) (hsome : parts ≠ []) :
    (pathOf parts).toList.splitOn '/' = parts.reverse.map String.toList := by
  rw [pathOf, String.toList_intercalate]
  refine List.splitOn_intercalate '/' ?_ ?_
  · intro chars hchars
    obtain ⟨part, hpart, rfl⟩ := List.mem_map.mp hchars
    exact h part (List.mem_reverse.mp hpart)
  · rw [Ne, List.map_eq_nil_iff, List.reverse_eq_nil_iff]
    exact hsome

/-- **The directories that a path begins with are those above the place it stands for.** -/
theorem suffix_of_isPrefixOf {directory above : List String} {name : String}
    (hdirectory : SlashFree directory) (hsome : directory ≠ [])
    (hname : SlashFree (name :: above))
    (h : (pathOf directory ++ "/").isPrefixOf (pathOf (name :: above)) = true) :
    directory <:+ above := by
  obtain ⟨rest, hrest⟩ := String.startsWith_string_iff.mp h
  rw [String.toList_append, List.append_assoc] at hrest
  have hsplit : (directory.reverse.map String.toList) ++ rest.splitOn '/' =
      (name :: above).reverse.map String.toList := by
    rw [← splitOn_pathOf hdirectory hsome, ← splitOn_pathOf hname (List.cons_ne_nil _ _), ← hrest]
    exact (List.splitOn_append_cons_self _ _).symm
  obtain ⟨outer, inner, hparts, houter, hinner⟩ := List.map_eq_append_iff.mp hsplit.symm
  have hinjective : Function.Injective String.toList := fun _ _ => String.toList_inj.mp
  obtain rfl : outer = directory.reverse := List.map_injective_iff.mpr hinjective houter
  -- the last part of the path is not one of the directory's, since something follows its slash
  have hinside : inner ≠ [] := by
    rintro rfl
    exact List.splitOn_ne_nil '/' rest hinner.symm
  have hall : name :: above = inner.reverse ++ directory := by
    rw [← List.reverse_reverse (name :: above), hparts, List.reverse_append, List.reverse_reverse]
  obtain ⟨first, others, hfirst⟩ := List.exists_cons_of_ne_nil (List.reverse_ne_nil_iff.mpr hinside)
  rw [hfirst, List.cons_append] at hall
  exact ⟨others, (List.cons.inj hall).2.symm⟩

/-! ## 1. How paths lead to places -/

/-- What there is under a path that no directory has. -/
def endAt (f : Files) (path : String) : Place :=
  match f.sources.find? path with
  | some found => .file path found
  | none => .vacant path

/-- **The rest of a path leads from a directory to a place.** -/
inductive Leads (f : Files) : List String → List String → Place → Prop where
  | arrived (directory : List String) : Leads f directory [] .directory
  | stays {directory rest : List String} {part : String} {place : Place}
      (idle : part = "" ∨ part = ".") (onward : Leads f directory rest place) :
      Leads f directory (part :: rest) place
  | rises {directory rest : List String} {place : Place}
      (onward : Leads f (above directory) rest place) : Leads f directory (".." :: rest) place
  | enters {directory rest : List String} {part : String} {place : Place}
      (named : ¬(part = "" ∨ part = ".") ∧ part ≠ "..") (short : part.utf8ByteSize ≤ partLimit)
      (there : f.hasDirectory (part :: directory) = true)
      (onward : Leads f (part :: directory) rest place) : Leads f directory (part :: rest) place
  | ends {directory : List String} {part : String}
      (named : ¬(part = "" ∨ part = ".") ∧ part ≠ "..") (short : part.utf8ByteSize ≤ partLimit)
      (unheld : ¬ f.hasDirectory (part :: directory) = true) :
      Leads f directory [part] (f.endAt (pathOf (part :: directory)))

section Leads

variable {f : Files} {directory rest : List String} {place : Place} {path : String}

/-- What is followed leads somewhere by the rules, one rule for each branch. -/
theorem leads_of_follow (h : f.follow directory rest = .ok place) :
    f.Leads directory rest place := by
  induction rest generalizing directory with
  | nil =>
    cases h
    exact .arrived directory
  | cons part rest ih =>
    rw [follow] at h
    split at h
    · next hidle => exact .stays hidle (ih h)
    · next hidle =>
      split at h
      · next hup =>
        rw [hup]
        exact .rises (ih h)
      · next hup =>
        split at h
        · cases h
        · next hlong =>
          have hshort := Nat.le_of_not_lt hlong
          split at h
          · next hthere => exact .enters ⟨hidle, hup⟩ hshort hthere (ih h)
          · next hunheld =>
            -- only the last part of a path names a file or what can become one
            have hends := Leads.ends ⟨hidle, hup⟩ hshort hunheld
            rw [endAt] at hends
            dsimp only at h
            cases hfound : f.sources.find? (pathOf (part :: directory)) <;> cases rest <;>
              rw [hfound] at h hends <;> cases h
            · exact hends
            · exact hends

/-- And what leads somewhere is followed there. -/
theorem Leads.follow (h : f.Leads directory rest place) : f.follow directory rest = .ok place := by
  induction h with
  | arrived directory => rfl
  | stays hidle _ ih => rw [Files.follow, if_pos hidle, ih]
  | rises _ ih => rw [Files.follow, if_neg (by decide), if_pos rfl, ih]
  | enters hnamed hshort hthere _ ih =>
    rw [Files.follow, if_neg hnamed.1, if_neg hnamed.2, if_neg (Nat.not_lt_of_le hshort),
      if_pos hthere, ih]
  | @ends directory part hnamed hshort hunheld =>
    rw [Files.follow, if_neg hnamed.1, if_neg hnamed.2, if_neg (Nat.not_lt_of_le hshort),
      if_neg hunheld, endAt]
    dsimp only
    cases f.sources.find? (pathOf (part :: directory)) <;> rfl

/-- **Where a path leads**, if it leads anywhere. -/
theorem locate_eq_ok :
    f.locate path = .ok place ↔
      (¬ path.isEmpty = true ∧ ¬ path.toList.contains (Char.ofNat 0) = true ∧
        ¬ pathLimit < path.utf8ByteSize) ∧
        f.Leads (startOf path).1 (startOf path).2 place := by
  rw [locate]
  constructor
  · intro h
    split at h
    · cases h
    · next hnamed =>
      split at h
      · cases h
      · next hwhole =>
        split at h
        · cases h
        · next hshort => exact ⟨⟨hnamed, hwhole, hshort⟩, leads_of_follow h⟩
  · rintro ⟨⟨hnamed, hwhole, hshort⟩, hleads⟩
    rw [if_neg hnamed, if_neg hwhole, if_neg hshort]
    exact hleads.follow

end Leads

/-! ## 2. Going through directories -/

/-- **Where a path can be followed to**: at or above the place where it starts, or in a directory
that was gone into. -/
inductive Standing (f : Files) : List String → Prop where
  | outside {directory : List String}
      (high : directory.all (fun part => part == ".." || part == "") = true) :
      Standing f directory
  | inside {part : String} {directory : List String} (below : Standing f directory)
      (there : f.hasDirectory (part :: directory) = true) (named : part ≠ "" ∧ part ≠ "..")
      (free : '/' ∉ part.toList) : Standing f (part :: directory)

/-- A path starts at the root or in the directory that is worked in. -/
theorem standing_startOf (f : Files) (path : String) : Standing f (startOf path).1 := by
  rw [startOf]
  split
  · exact .outside rfl
  · exact .outside rfl

/-- What is at or above the start is there, listed or not. -/
theorem hasDirectory_of_high {f : Files} {directory : List String}
    (h : directory.all (fun part => part == ".." || part == "") = true) :
    f.hasDirectory directory = true := by
  rw [hasDirectory, h, Bool.true_or, Bool.true_or]

namespace Standing

variable {f : Files} {directory : List String}

/-- Parts that were gone into come from a path, and so hold no slash. -/
theorem slashFree (h : Standing f directory) : SlashFree directory := by
  induction h with
  | outside hhigh =>
    intro part hpart
    have hname := List.all_eq_true.mp hhigh part hpart
    rw [Bool.or_eq_true, beq_iff_eq, beq_iff_eq] at hname
    rcases hname with rfl | rfl <;> decide
  | inside _ _ _ hfree ih => exact slashFree_cons.mpr ⟨hfree, ih⟩

/-- Going up leads to a directory again. -/
theorem above (h : Standing f directory) : Standing f (above directory) := by
  cases h with
  | outside hhigh =>
    cases directory with
    | nil => exact .outside rfl
    | cons part up =>
      obtain ⟨hname, hup⟩ := Bool.and_eq_true_iff.mp hhigh
      rw [Bool.or_eq_true, beq_iff_eq, beq_iff_eq] at hname
      rcases hname with rfl | rfl
      · exact .outside (by rw [Files.above, List.all_cons, List.all_cons, hup]; rfl)
      · exact .outside (by rw [Files.above, List.all_cons, hup]; rfl)
  | @inside part up hbelow _ hnamed _ =>
    have hup : Files.above (part :: up) = up := by
      rw [Files.above]
      · exact hnamed.1
      · exact hnamed.2
    rw [hup]
    exact hbelow

/-- Going into a directory that is there leads to a directory again. -/
theorem enter {part : String} (h : Standing f directory)
    (hthere : f.hasDirectory (part :: directory) = true)
    (hnamed : ¬(part = "" ∨ part = ".") ∧ part ≠ "..") (hpart : '/' ∉ part.toList) :
    Standing f (part :: directory) :=
  .inside h hthere ⟨fun he => hnamed.1 (.inl he), hnamed.2⟩ hpart

/-- **All that is gone through is there.** -/
theorem hasDirectory (h : Standing f directory) {outer : List String}
    (hsuffix : outer <:+ directory) : f.hasDirectory outer = true := by
  induction h with
  | outside hhigh =>
    refine hasDirectory_of_high (List.all_eq_true.mpr fun part hpart => ?_)
    exact List.all_eq_true.mp hhigh part (hsuffix.subset hpart)
  | inside _ hthere _ _ ih =>
    rcases List.suffix_cons_iff.mp hsuffix with rfl | hsuffix
    · exact hthere
    · exact ih hsuffix

end Standing

/-- **The path of a place that a path can lead to**, which is not a directory but in one. -/
def Reachable (f : Files) (path : String) : Prop :=
  ∃ name directory, Standing f directory ∧ '/' ∉ name.toList ∧ path = pathOf (name :: directory)

end Files

/-- The path that a file at a place stands under, or would. -/
def Place.path? : Place → Option String
  | file path _ => some path
  | directory => none
  | vacant path => some path

namespace Files

section Reachable

variable {f : Files} {directory rest : List String} {place : Place} {path : String}

/-- A path that ends somewhere is the path of what is there, or of what can be put there. -/
theorem path?_endAt (f : Files) (path : String) : (f.endAt path).path? = some path := by
  rw [endAt]
  split <;> rfl

/-- Where a path leads to a file, that stands in a directory that was gone through. -/
theorem Leads.reachable (h : f.Leads directory rest place) (hstanding : Standing f directory)
    (hrest : SlashFree rest) (hpath : place.path? = some path) : Reachable f path := by
  induction h with
  | arrived directory => cases hpath
  | stays _ _ ih => exact ih hstanding (slashFree_cons.mp hrest).2 hpath
  | rises _ ih => exact ih hstanding.above (slashFree_cons.mp hrest).2 hpath
  | enters hnamed _ hthere _ ih =>
    obtain ⟨hpart, hrest⟩ := slashFree_cons.mp hrest
    exact ih (hstanding.enter hthere hnamed hpart) hrest hpath
  | @ends directory part _ _ _ =>
    rw [path?_endAt] at hpath
    cases hpath
    exact ⟨part, directory, hstanding, (slashFree_cons.mp hrest).1, rfl⟩

theorem reachable_of_locate {other : String} (h : f.locate other = .ok place)
    (hpath : place.path? = some path) : Reachable f path :=
  (locate_eq_ok.mp h).2.reachable (standing_startOf f other) (slashFree_startOf other) hpath

end Reachable

/-! ## 3. Writing makes no directory -/

section Writing

variable {f : Files} {directory rest : List String} {place : Place} {path : String}

/-- One file is as it was written, and the others are as they were. -/
theorem find?_put (f : Files) (path text key : String) :
    (f.put path text).sources.find? key =
      if key = path then some (.ofText text) else f.sources.find? key := by
  by_cases hkey : key = path
  · rw [hkey, if_pos rfl]
    exact Table.find?_insert_self _ _ _
  · rw [if_neg hkey]
    exact Table.find?_insert_of_ne _ _ fun h => hkey h.symm

/-- No file goes when one is written. -/
theorem mem_keys_put {text key : String} :
    key ∈ (f.put path text).sources.keys ↔ key = path ∨ key ∈ f.sources.keys := by
  rw [Table.mem_keys, Table.mem_keys, Table.contains, Table.contains, find?_put]
  split
  · next hkey => exact iff_of_true rfl (.inl hkey)
  · next hkey => rw [or_iff_right hkey]

/-- **A directory is there after a file is written exactly if it was there before.** -/
theorem hasDirectory_put (h : Reachable f path) (text : String) {parts : List String}
    (hparts : SlashFree parts) : (f.put path text).hasDirectory parts = f.hasDirectory parts := by
  obtain ⟨name, directory, hstanding, hname, rfl⟩ := h
  refine Bool.eq_iff_iff.mpr ⟨fun hafter => ?_, fun hbefore => ?_⟩
  · by_cases hsome : parts = []
    · rw [hsome]
      exact hasDirectory_of_high rfl
    rw [hasDirectory, Bool.or_eq_true, List.any_eq_true] at hafter
    rcases hafter with hlisted | ⟨key, hkey, hin⟩
    · rw [hasDirectory, Bool.or_eq_true]
      exact .inl hlisted
    · rcases mem_keys_put.mp hkey with rfl | hkey
      · have hall : SlashFree (name :: directory) := slashFree_cons.mpr ⟨hname, hstanding.slashFree⟩
        exact hstanding.hasDirectory (suffix_of_isPrefixOf hparts hsome hall hin)
      · rw [hasDirectory, Bool.or_eq_true, List.any_eq_true]
        exact .inr ⟨key, hkey, hin⟩
  · rw [hasDirectory, Bool.or_eq_true, List.any_eq_true] at hbefore ⊢
    exact hbefore.imp id fun ⟨key, hkey, hin⟩ => ⟨key, mem_keys_put.mpr (.inr hkey), hin⟩

end Writing

end Files

/-! ## 4. Paths lead where they led -/

/-- A place after a text is written under a path. -/
def Place.after (path text : String) : Place → Place
  | file here found => .file here (if here = path then .ofText text else found)
  | directory => .directory
  | vacant here => if here = path then .file here (.ofText text) else .vacant here

/-- What is at a place may change, and its path does not. -/
theorem Place.path?_after (path text : String) (place : Place) :
    (place.after path text).path? = place.path? := by
  cases place with
  | file here found => rfl
  | directory => rfl
  | vacant here =>
    rw [after]
    split <;> rfl

namespace Files

variable {f : Files} {directory rest : List String} {place : Place} {path : String}

/-- What a path ends at is what was there, but for the text that was put. -/
theorem endAt_put (f : Files) (path text here : String) :
    (f.put path text).endAt here = (f.endAt here).after path text := by
  rw [endAt, endAt, find?_put]
  by_cases hhere : here = path
  · rw [if_pos hhere]
    cases f.sources.find? here with
    | some found => rw [Place.after, if_pos hhere]
    | none => rw [Place.after, if_pos hhere]
  · rw [if_neg hhere]
    cases f.sources.find? here with
    | some found => rw [Place.after, if_neg hhere]
    | none => rw [Place.after, if_neg hhere]

/-- **What was reached is reached again, and is as it was but for what was written.** -/
theorem leads_put (hwritten : Reachable f path) (text : String)
    (h : f.Leads directory rest place) (hstanding : Standing f directory)
    (hrest : SlashFree rest) :
    (f.put path text).Leads directory rest (place.after path text) := by
  have hsame : ∀ {part : String} {directory : List String}, '/' ∉ part.toList →
      Standing f directory → (f.put path text).hasDirectory (part :: directory) =
        f.hasDirectory (part :: directory) := fun hpart hstanding =>
    hasDirectory_put hwritten text (slashFree_cons.mpr ⟨hpart, hstanding.slashFree⟩)
  induction h with
  | arrived directory => exact .arrived directory
  | stays hidle _ ih => exact .stays hidle (ih hstanding (slashFree_cons.mp hrest).2)
  | rises _ ih => exact .rises (ih hstanding.above (slashFree_cons.mp hrest).2)
  | enters hnamed hshort hthere _ ih =>
    obtain ⟨hpart, hrest⟩ := slashFree_cons.mp hrest
    refine .enters hnamed hshort ?_ (ih (hstanding.enter hthere hnamed hpart) hrest)
    rw [hsame hpart hstanding]
    exact hthere
  | ends hnamed hshort hunheld =>
    rw [← endAt_put]
    refine .ends hnamed hshort ?_
    rw [hsame (slashFree_cons.mp hrest).1 hstanding]
    exact hunheld

/-- **Every path leads where it led**, also when a file is written that was not there. -/
theorem locate_put (hwritten : Reachable f path) (text : String) {other : String}
    (h : f.locate other = .ok place) :
    (f.put path text).locate other = .ok (place.after path text) := by
  obtain ⟨hfine, hleads⟩ := locate_eq_ok.mp h
  refine locate_eq_ok.mpr ⟨hfine, ?_⟩
  exact leads_put hwritten text hleads (standing_startOf f other) (slashFree_startOf other)

/-! ## Reading and writing -/

/-- **What writing does, if it does anything**: it puts the text where the path leads. -/
theorem write_eq_ok {f' : Files} {other text : String} :
    f.write other text = .ok f' ↔
      ∃ place path, f.locate other = .ok place ∧ place.path? = some path ∧
        f' = f.put path text := by
  rw [write]
  constructor
  · intro h
    split at h
    · next path found hplace =>
      cases h
      exact ⟨.file path found, path, hplace, rfl, rfl⟩
    · next path hplace =>
      cases h
      exact ⟨.vacant path, path, hplace, rfl, rfl⟩
    · cases h
    · cases h
  · rintro ⟨place, path, hplace, hpath, rfl⟩
    rw [hplace]
    cases place with
    | file here found =>
      cases hpath
      rfl
    | directory => cases hpath
    | vacant here =>
      cases hpath
      rfl

/-- Nothing has changed since now. -/
theorem changedSince_self (f : Files) : f.changedSince f = [] := by
  refine List.filterMap_eq_nil_iff.mpr fun row hrow => ?_
  exact if_pos (Table.find?_eq_some.mpr hrow)

/-- **What has changed when a text is put under a path** is that text, unless it stood there. -/
theorem mem_changedSince_put {text other found : String} :
    (other, found) ∈ (f.put path text).changedSince f ↔
      other = path ∧ found = text ∧ f.sources.find? path ≠ some (.ofText text) := by
  rw [changedSince, List.mem_filterMap]
  constructor
  · rintro ⟨⟨key, source⟩, hrow, hkept⟩
    dsimp only at hkept
    split at hkept
    · cases hkept
    · next hnew =>
      obtain ⟨text', htext, heq⟩ := Option.map_eq_some_iff.mp hkept
      cases heq
      have hfound := Table.find?_eq_some.mpr hrow
      rw [find?_put] at hfound
      split at hfound
      · next hkey =>
        cases hfound
        rw [Json.Source.text?_ofText] at htext
        cases htext
        exact ⟨hkey, rfl, hkey ▸ hnew⟩
      · exact absurd hfound hnew
  · rintro ⟨rfl, rfl, hnew⟩
    refine ⟨(other, .ofText found), Table.find?_eq_some.mp ?_, ?_⟩
    · rw [find?_put, if_pos rfl]
    · dsimp only
      rw [if_neg hnew, Json.Source.text?_ofText]
      rfl

/-- **What is written is read back**, under every path that leads there. -/
theorem read_put_self {other : String} (h : f.locate other = .ok place)
    (hpath : place.path? = some path) (text : String) :
    (f.put path text).read other = .ok (.ofText text) := by
  rw [read, locate_put (reachable_of_locate h hpath) text h]
  cases place with
  | file here found =>
    cases hpath
    rw [Place.after, if_pos rfl]
  | directory => cases hpath
  | vacant here =>
    cases hpath
    rw [Place.after, if_pos rfl]

/-- **Every other file is read as before.** -/
theorem read_put_of_ne {other : String} (hwritten : Reachable f path) (text : String)
    (h : f.locate other = .ok place) (hother : place.path? ≠ some path) :
    (f.put path text).read other = f.read other := by
  rw [read, read, locate_put hwritten text h, h]
  cases place with
  | file here found => rw [Place.after, if_neg fun he => hother (congrArg some he)]
  | directory => rfl
  | vacant here => rw [Place.after, if_neg fun he => hother (congrArg some he)]

end Files

end RegionAtlas
