/-
  Round trips — what is written of a value is read back as that value.

  Between a record and its text stands a value of JSON, and what the reader makes of either text of
  that value is its node (`read_compact`, `read_pretty`).  So what is left to show of each kind of
  record is

      decode (encode a).node = .ok (kept a)

  where all is kept but the owner of a region, which is not written.

  1. Numbers are in range and texts of a format are read by it, since they come from a value that
     was.
  2. Items come back one by one.  The rows of a map come back in order of their keys, so each is
     placed behind the others (`Table.place_last`), and the map that they build up is the one that
     was written.
  3. The fields of a record are written each by its own name, and no two names are the same; so each
     is found where it is looked for, and none is filled twice (`fillByName_cons`).
  4. Bounds and lifespans that are checked pass the check, since they are those of a value
     (`AddressRange.decode_eq_ok_iff`, `Lifespan.decode_eq_ok_iff`).
-/
import RegionAtlas.Proofs.Documents
import RegionAtlas.Proofs.Reload
import RegionAtlas.Proofs.Words
import RegionAtlas.Project.Project

namespace RegionAtlas

namespace Json

/-- **Values come back from either text that is written for them**, up to what is kept of them, and
what came back is written as the same text. -/
def RoundTrips {α : Type} (encode : α → Json) (decode : Decoder α) (kept : α → α) : Prop :=
  ∀ a, ∀ write ∈ [compact, pretty],
    decodeSource decode (.ofText (write (encode a))) = .ok (kept a) ∧
      write (encode (kept a)) = write (encode a)

/-- It is enough to look at nodes: either text is read as the node of the value that was written,
and what is not kept is not written either. -/
theorem roundTrips_of_node {α : Type} {encode : α → Json} {decode : Decoder α} {kept : α → α}
    (hnode : ∀ a, decode (encode a).node = .ok (kept a))
    (hencode : ∀ a, encode (kept a) = encode a) : RoundTrips encode decode kept := by
  intro a write hwrite
  have hread : Document.read (.ofText (write (encode a))) = ⟨(encode a).node, true⟩ := by
    rcases List.mem_pair.mp hwrite with rfl | rfl
    · exact read_compact _
    · exact read_pretty _
  refine ⟨?_, congrArg write (hencode a)⟩
  rw [decodeSource, hread]
  show (decode (encode a).node).bind _ = _
  rw [hnode]
  rfl

/-! ## 1. Plain values -/

/-- A word is below the bound that the reader asks for, and is not wrapped around by it. -/
theorem decodeWord_node (n : UInt64) : decodeWord (word n).node = .ok n := by
  have hlt : n.toNat < UInt64.size := n.toNat_lt
  show (if (0 : Int) ≤ (n.toNat : Int) ∧ (n.toNat : Int) < UInt64.size then
    Except.ok (UInt64.ofNat (n.toNat : Int).toNat) else .error Unreadable.mismatch) = .ok n
  rw [if_pos ⟨Int.natCast_nonneg _, Int.ofNat_lt.mpr hlt⟩, Int.toNat_natCast, UInt64.ofNat_toNat]

/-- A signed word is within both bounds, and the lowest one has no counterpart above zero. -/
theorem decodeSigned_node (s : Int64) : decodeSigned (integer s.toInt).node = .ok s := by
  have hlow : -(Text.signedBound : Int) ≤ s.toInt := s.le_toInt
  have hhigh : s.toInt < Text.signedBound := s.toInt_lt
  show (if _ then Except.ok (Int64.ofInt s.toInt) else .error Unreadable.mismatch) = .ok s
  rw [if_pos ⟨hlow, hhigh⟩, Int64.ofInt_toInt]

theorem decodeString_node (s : String) : decodeString (string s).node = .ok s := rfl

/-- A text that its format reads is decoded as what it reads. -/
theorem decodeFormat_node {α : Type} {ofText? : String → Option α} {s : String} {a : α}
    (h : ofText? s = some a) : decodeFormat ofText? (string s).node = .ok a := by
  rw [decodeFormat, decodeString_node]
  dsimp only [Except.bind]
  rw [h]

/-! ## 2. Lists and maps -/

section Collections

variable {α : Type} {encode : α → Json} {decode : Decoder α} {kept : α → α}

/-- The items are decoded from the front, so the induction is on the list that was written. -/
theorem decodeItems_nodes (h : ∀ a, decode (encode a).node = .ok (kept a)) (as : List α) :
    decodeItems decode (nodes (as.map encode)) = .ok (as.map kept) := by
  induction as with
  | nil => rfl
  | cons a rest ih =>
    show (decode (encode a).node).bind
      (fun a => (decodeItems decode (nodes (rest.map encode))).bind fun as => .ok (a :: as)) = _
    rw [h, ih]
    rfl

/-- A written list has nothing behind its items, so its end is no fault. -/
theorem decodeList_node (h : ∀ a, decode (encode a).node = .ok (kept a)) (as : List α) :
    decodeList decode (array (as.map encode)).node = .ok (as.map kept) := by
  show (decodeItems decode (nodes (as.map encode))).bind _ = _
  rw [decodeItems_nodes h]
  rfl

/-- Where all of each item is kept, all of the list is. -/
theorem decodeList_node_all (h : ∀ a, decode (encode a).node = .ok a) (as : List α) :
    decodeList decode (array (as.map encode)).node = .ok as := by
  have hall := decodeList_node h as
  rwa [List.map_id'] at hall

end Collections

end Json

/-- **A row above all others is placed behind them.** -/
theorem Table.place_last {κ α : Type} [Ord κ] [Std.OrientedOrd κ] {k : κ} (a : α)
    {rows : List (κ × α)} (h : ∀ row ∈ rows, compare row.1 k = .lt) :
    place k a rows = rows ++ [(k, a)] := by
  induction rows with
  | nil => rfl
  | cons first rest ih =>
    have habove : compare k first.1 = .gt :=
      Std.OrientedCmp.gt_of_lt (h first List.mem_cons_self)
    rw [place, habove]
    exact congrArg _ (ih fun row hrow => h row (List.mem_cons_of_mem _ hrow))

namespace Json

section Maps

variable {α : Type} {encode : α → Json} {decode : Decoder α}

/-- What was found and what is still to come are together the rows of the table that was written,
and so every row that comes next is above those that were found. -/
theorem decodeEntries_nodes (h : ∀ a, decode (encode a).node = .ok a)
    {found t : Table String α} {rows : List (String × α)} (hrows : t.rows = found.rows ++ rows) :
    decodeEntries decode found (fieldNodes (rows.map fun row => (row.1, encode row.2))) =
      .ok t := by
  induction rows generalizing found with
  | nil =>
    rw [List.append_nil] at hrows
    exact congrArg Except.ok (Table.ext hrows.symm)
  | cons row rest ih =>
    have habove : ∀ other ∈ found.rows, compare other.1 row.1 = .lt := by
      intro other hother
      have hascending := t.ascending
      rw [hrows] at hascending
      exact (List.pairwise_append.mp hascending).2.2 other hother row List.mem_cons_self
    have hinsert : (found.insert row.1 row.2).rows = found.rows ++ [row] :=
      Table.place_last row.2 habove
    show (decode (encode row.2).node).bind _ = _
    rw [h]
    show decodeEntries decode (found.insert row.1 row.2) _ = _
    refine ih ?_
    rw [hinsert, hrows, List.append_assoc, List.singleton_append]

/-- **A map comes back**, since its rows are in order and no key is there twice. -/
theorem decodeMap_node (h : ∀ a, decode (encode a).node = .ok a) (t : Table String α) :
    decodeMap decode (Project.tableJson encode t).node = .ok t := by
  show (decodeEntries decode .empty (fieldNodes (t.rows.map _))).bind _ = _
  rw [decodeEntries_nodes h (show t.rows = Table.empty.rows ++ t.rows from rfl)]
  rfl

end Maps

/-! ## 3. Records -/

section Records

variable {ρ α : Type} {known : List (RecordField ρ)} {start r r' : ρ}

/-- **A field is filled under its own name**, where no other has that name. -/
theorem fillByName_cons {field : RecordField ρ} {node : Node} {i : Nat}
    (hnames : (known.map (·.name)).Nodup) (hfield : known[i]? = some field)
    (hempty : field.isFilled r = false) (hfill : field.fill node r = .ok r')
    (rest : List (Option String × Node)) :
    fillByName known r ((some field.name, node) :: rest) = fillByName known r' rest := by
  have hfind : known.find? (·.name == field.name) = some field :=
    (find?_key_eq_some hnames).mpr ⟨List.mem_of_getElem? hfield, rfl⟩
  rw [fillByName, hfind]
  dsimp only
  rw [hempty, hfill]
  rfl

/-- A field takes what its decoder gives. -/
theorem fill_of_decode {name : String} {get : ρ → Option α} {set : ρ → Option α → ρ}
    {decode : Decoder α} {node : Node} {a : α} (h : decode node = .ok a) :
    (RecordField.of name get set decode).fill node r = .ok (set r (some a)) := by
  show (decode node).map _ = _
  rw [h]
  rfl

/-- In an array each item is the next field, whatever its name. -/
theorem fillInOrder_cons {field : RecordField ρ} {node : Node} (hfill : field.fill node r = .ok r')
    (known : List (RecordField ρ)) (rest : List Node) (stop : Option Break) :
    fillInOrder r (field :: known) (node :: rest) stop = fillInOrder r' known rest stop := by
  rw [fillInOrder, hfill]
  rfl

/-- A record is decoded if its fields are found and are enough to make one. -/
theorem decodeRecord_object {make : ρ → Option α} {fields : List (Option String × Node)} {a : α}
    (hfound : fillByName known start fields = .ok r) (hmake : make r = some a) :
    decodeRecord start known make (.object fields none) = .ok a := by
  show (fillByName known start fields).bind _ = _
  rw [hfound]
  show finish make r = _
  rw [finish, hmake]

/-- The same of a record that stands in an array. -/
theorem decodeTuple_array {make : ρ → Option α} {items : List Node} {a : α}
    (hfound : fillInOrder start known items none = .ok r) (hmake : make r = some a) :
    decodeTuple start known make (.array items none) = .ok a := by
  show (fillInOrder start known items none).bind _ = _
  rw [hfound]
  show finish make r = _
  rw [finish, hmake]

end Records

end Json

/-! ## 4. The records of an archive -/

open Json

/-- The bounds of a range are in order, so the check that follows is passed. -/
theorem AddressRange.decode_node (range : AddressRange) :
    decode range.toJson.node = .ok range := by
  refine decode_eq_ok_iff.mpr (decodeTuple_array (r := ⟨some range.min, some range.max⟩) ?_ rfl)
  refine (fillInOrder_cons (fill_of_decode (decodeWord_node range.min)) _ _ none).trans ?_
  refine (fillInOrder_cons (fill_of_decode (decodeWord_node range.max)) _ _ none).trans ?_
  rfl

/-- An address comes back by its two fields, however odd the name of its space is. -/
theorem StaticAddress.decode_node (a : StaticAddress) : decode a.toJson.node = .ok a := by
  have hnames : (fields.map (·.name)).Nodup := by decide
  refine decodeRecord_object (r := ⟨some a.space, some a.offset⟩) ?_ rfl
  refine (fillByName_cons hnames (i := 0) rfl rfl
    (fill_of_decode (decodeString_node a.space)) _).trans ?_
  refine (fillByName_cons hnames (i := 1) rfl rfl
    (fill_of_decode (decodeWord_node a.offset)) _).trans ?_
  rfl

/-- The three places are letters that reading understands, which is a matter of eight cases. -/
theorem Permissions.decode_node (p : Permissions) : decode p.toJson.node = .ok p := by
  refine decodeFormat_node ?_
  rw [ofText?, text, String.toList_ofList]
  exact ofLetters?_letters p

/-- The number alone is written, and any word is a number. -/
theorem RegionId.decode_node (id : RegionId) : decode id.toJson.node = .ok id := by
  show (decodeWord (word id.raw).node).map RegionId.mk = _
  rw [decodeWord_node]
  rfl

theorem MappingId.decode_node (id : MappingId) : decode id.toJson.node = .ok id := by
  show (decodeWord (word id.raw).node).map MappingId.mk = _
  rw [decodeWord_node]
  rfl

/-- No stop is written as `null`, and that is told apart from every snap. -/
theorem Lifespan.decode_stop (stop : Option Snap) :
    decodeOptional decodeSigned (stopJson stop).node = .ok stop := by
  cases stop with
  | none => rfl
  | some e =>
    show (decodeSigned (integer e.toInt).node).map some = _
    rw [decodeSigned_node]
    rfl

/-- The ends of a lifespan are in order, as with ranges. -/
theorem Lifespan.decode_node (l : Lifespan) : decode l.toJson.node = .ok l := by
  have hnames : (fields.map (·.name)).Nodup := by decide
  refine decode_eq_ok_iff.mpr (decodeRecord_object (r := ⟨some l.start, some l.stop⟩) ?_ rfl)
  refine (fillByName_cons hnames (i := 0) rfl rfl
    (fill_of_decode (decodeSigned_node l.start)) _).trans ?_
  refine (fillByName_cons hnames (i := 1) rfl rfl
    (fill_of_decode (decode_stop l.stop)) _).trans ?_
  rfl

/-- A region comes back without its owner. -/
theorem Region.decode_node (r : Region) : decode r.toJson.node = .ok (r.ownedBy unownedId) := by
  have hnames : (fields.map (·.name)).Nodup := by decide
  refine decodeRecord_object
    (r := ⟨some r.id, some r.name, some r.range, some r.permissions, some r.lifespan⟩) ?_ rfl
  refine (fillByName_cons hnames (i := 0) rfl rfl
    (fill_of_decode (RegionId.decode_node r.id)) _).trans ?_
  refine (fillByName_cons hnames (i := 1) rfl rfl
    (fill_of_decode (decodeString_node r.name)) _).trans ?_
  refine (fillByName_cons hnames (i := 2) rfl rfl
    (fill_of_decode (AddressRange.decode_node r.range)) _).trans ?_
  refine (fillByName_cons hnames (i := 3) rfl rfl
    (fill_of_decode (Permissions.decode_node r.permissions)) _).trans ?_
  refine (fillByName_cons hnames (i := 4) rfl rfl
    (fill_of_decode (Lifespan.decode_node r.lifespan)) _).trans ?_
  rfl

/-- A mapping comes back whole, with sides that are not equally long too. -/
theorem Mapping.decode_node (m : Mapping) : decode m.toJson.node = .ok m := by
  have hnames : (fields.map (·.name)).Nodup := by decide
  refine decodeRecord_object
    (r := ⟨some m.id, some m.traceRange, some m.lifespan, some m.program, some m.space,
      some m.staticRange⟩) ?_ rfl
  refine (fillByName_cons hnames (i := 0) rfl rfl
    (fill_of_decode (MappingId.decode_node m.id)) _).trans ?_
  refine (fillByName_cons hnames (i := 1) rfl rfl
    (fill_of_decode (AddressRange.decode_node m.traceRange)) _).trans ?_
  refine (fillByName_cons hnames (i := 2) rfl rfl
    (fill_of_decode (Lifespan.decode_node m.lifespan)) _).trans ?_
  refine (fillByName_cons hnames (i := 3) rfl rfl
    (fill_of_decode (decodeString_node m.program)) _).trans ?_
  refine (fillByName_cons hnames (i := 4) rfl rfl
    (fill_of_decode (decodeString_node m.space)) _).trans ?_
  refine (fillByName_cons hnames (i := 5) rfl rfl
    (fill_of_decode (AddressRange.decode_node m.staticRange)) _).trans ?_
  rfl

/-- A database comes back with regions that no trace owns. -/
theorem Database.decode_node (db : Database) :
    decode db.toJson.node = .ok (db.ownedBy unownedId) := by
  have hnames : (fields.map (·.name)).Nodup := by decide
  refine decodeRecord_object
    (r := ⟨some (db.regions.map (·.ownedBy unownedId)), some db.mappings⟩) ?_ rfl
  refine (fillByName_cons hnames (i := 0) rfl rfl
    (fill_of_decode (decodeList_node Region.decode_node db.regions)) _).trans ?_
  refine (fillByName_cons hnames (i := 1) rfl rfl
    (fill_of_decode (decodeList_node_all Mapping.decode_node db.mappings)) _).trans ?_
  rfl

/-! ## 5. The records of a project -/

/-- The text of an offset is read as the offset, digits that fill it up or not. -/
theorem HexOffset.decode_node (o : HexOffset) : decode o.toJson.node = .ok o :=
  decodeFormat_node o.ofText?_text

theorem BlockConfig.decode_node (b : BlockConfig) : decode b.toJson.node = .ok b := by
  have hnames : (fields.map (·.name)).Nodup := by decide
  refine decodeRecord_object (r := ⟨some b.name, some b.start, some b.length⟩) ?_ rfl
  refine (fillByName_cons hnames (i := 0) rfl rfl
    (fill_of_decode (decodeString_node b.name)) _).trans ?_
  refine (fillByName_cons hnames (i := 1) rfl rfl
    (fill_of_decode (HexOffset.decode_node b.start)) _).trans ?_
  refine (fillByName_cons hnames (i := 2) rfl rfl
    (fill_of_decode (HexOffset.decode_node b.length)) _).trans ?_
  rfl

/-- The blocks come back in the order in which they are listed, also those that fit nowhere. -/
theorem ProgramConfig.decode_node (p : ProgramConfig) : decode p.toJson.node = .ok p := by
  have hnames : (fields.map (·.name)).Nodup := by decide
  refine decodeRecord_object (r := ⟨some p.space, some p.blocks⟩) ?_ rfl
  refine (fillByName_cons hnames (i := 0) rfl rfl
    (fill_of_decode (decodeString_node p.space)) _).trans ?_
  refine (fillByName_cons hnames (i := 1) rfl rfl
    (fill_of_decode (decodeList_node_all BlockConfig.decode_node p.blocks)) _).trans ?_
  rfl

theorem TraceConfig.decode_node (t : TraceConfig) : decode t.toJson.node = .ok t := by
  have hnames : (fields.map (·.name)).Nodup := by decide
  refine decodeRecord_object (r := ⟨some t.databasePath, some t.snap⟩) ?_ rfl
  refine (fillByName_cons hnames (i := 0) rfl rfl
    (fill_of_decode (decodeString_node t.databasePath)) _).trans ?_
  refine (fillByName_cons hnames (i := 1) rfl rfl
    (fill_of_decode (decodeSigned_node t.snap)) _).trans ?_
  rfl

/-- Both fields are there, so nothing is filled in. -/
theorem Settings.decode_node (s : Settings) : decode s.toJson.node = .ok s := by
  have hnames : (fields.map (·.name)).Nodup := by decide
  refine decodeRecord_object (r := ⟨some s.debounce, some s.undoLimit⟩) ?_ rfl
  refine (fillByName_cons hnames (i := 0) rfl rfl
    (fill_of_decode (decodeWord_node s.debounce)) _).trans ?_
  refine (fillByName_cons hnames (i := 1) rfl rfl
    (fill_of_decode (decodeWord_node s.undoLimit)) _).trans ?_
  rfl

/-- The two maps of a project come back as tables, so the order of names is kept. -/
theorem Project.decode_node (p : Project) : decode p.toJson.node = .ok p := by
  have hnames : (fields.map (·.name)).Nodup := by decide
  refine decodeRecord_object (r := ⟨some p.traces, some p.programs, some p.settings⟩) ?_ rfl
  refine (fillByName_cons hnames (i := 0) rfl rfl
    (fill_of_decode (decodeMap_node TraceConfig.decode_node p.traces)) _).trans ?_
  refine (fillByName_cons hnames (i := 1) rfl rfl
    (fill_of_decode (decodeMap_node ProgramConfig.decode_node p.programs)) _).trans ?_
  refine (fillByName_cons hnames (i := 2) rfl rfl
    (fill_of_decode (Settings.decode_node p.settings)) _).trans ?_
  rfl

/-- **Whatever is saved is read back, and saving it again changes no byte.**  Regions, alone and in
a database, come back without their owner, which is not written; everything else comes back as it
was, whatever names it holds and however high its numbers are. -/
theorem saved_values_reread :
    RoundTrips AddressRange.toJson AddressRange.decode id ∧
    RoundTrips Lifespan.toJson Lifespan.decode id ∧
    RoundTrips Permissions.toJson Permissions.decode id ∧
    RoundTrips StaticAddress.toJson StaticAddress.decode id ∧
    RoundTrips HexOffset.toJson HexOffset.decode id ∧
    RoundTrips Region.toJson Region.decode (·.ownedBy unownedId) ∧
    RoundTrips Mapping.toJson Mapping.decode id ∧
    RoundTrips TraceConfig.toJson TraceConfig.decode id ∧
    RoundTrips ProgramConfig.toJson ProgramConfig.decode id ∧
    RoundTrips Settings.toJson Settings.decode id ∧
    RoundTrips Database.toJson Database.decode (·.ownedBy unownedId) ∧
    RoundTrips Project.toJson Project.decode id :=
  ⟨roundTrips_of_node AddressRange.decode_node fun _ => rfl,
    roundTrips_of_node Lifespan.decode_node fun _ => rfl,
    roundTrips_of_node Permissions.decode_node fun _ => rfl,
    roundTrips_of_node StaticAddress.decode_node fun _ => rfl,
    roundTrips_of_node HexOffset.decode_node fun _ => rfl,
    roundTrips_of_node Region.decode_node fun _ => rfl,
    roundTrips_of_node Mapping.decode_node fun _ => rfl,
    roundTrips_of_node TraceConfig.decode_node fun _ => rfl,
    roundTrips_of_node ProgramConfig.decode_node fun _ => rfl,
    roundTrips_of_node Settings.decode_node fun _ => rfl,
    roundTrips_of_node Database.decode_node fun db => db.toJson_ownedBy unownedId,
    roundTrips_of_node Project.decode_node fun _ => rfl⟩

end RegionAtlas
