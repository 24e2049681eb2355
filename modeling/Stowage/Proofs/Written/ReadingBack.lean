import Stowage.Proofs.Written.Padding

/-!
# Written forms are read back

Every value whose numbers are in range is read back from its written form, whatever further fields
the records of structures have been given, at every depth. Settings are read back too when some of
their fields are left out: these are then the standard ones, and all others stay.
-/

namespace Stowage

set_option autoImplicit false

open Written

namespace Written
variable {n : Nat}

theorem readInt_int {low high n : Int} (h : low ≤ n ∧ n ≤ high) :
    readInt low high (.int n) = some n := if_pos h

theorem readNat_writeNat {high : Nat} (h : n ≤ high) : readNat high (writeNat n) = some n := by
  unfold readNat writeNat
  rw [readInt_int (by omega)]
  rfl

theorem le_of_readNat {high : Nat} {d : Datum} (h : readNat high d = some n) : n ≤ high := by
  unfold readNat readInt at h
  obtain ⟨i, hi, rfl⟩ := Option.map_eq_some_iff.mp h
  split at hi
  · split at hi
    · cases hi
      omega
    · cases hi
  · cases hi

theorem readsBack_string (s : String) : ReadsBack .strict s := .of_same rfl

theorem readsBack_bool (b : Bool) : ReadsBack .strict b := .of_same rfl

theorem readsBack_byte (b : UInt8) : ReadsBack .strict b := by
  refine .of_same ?_
  have hbound : b.toNat ≤ 255 := Nat.le_of_lt_succ b.toNat_lt
  change (readNat 255 (writeNat b.toNat)).map UInt8.ofNat = some b
  rw [readNat_writeNat hbound, Option.map_some, UInt8.ofNat_toNat]

theorem readsBack_bytes (bytes : List UInt8) : ReadsBack .strict bytes :=
  .of_same (ReadsBack.list fun b _ => readsBack_byte b).same

theorem bind_readNat {look : String → Option Datum} {name : String}
    (hlook : Option.Rel Padding.strict.Pads (some (writeNat n)) (look name))
    (h : n ≤ maxQuantity) : (look name).bind (readNat maxQuantity) = some n := by
  rw [Padding.eq_of_rel_strict hlook]
  exact readNat_writeNat h

def twoNumbers (first second : String) : Padding :=
  .fields [(first, .strict), (second, .strict)]

theorem exists_twoNumbers {first second : String} (hne : first ≠ second) {m n : Nat}
    (hm : m ≤ maxQuantity) (hn : n ≤ maxQuantity) {d : Datum}
    (h : (twoNumbers first second).Pads
      (.record [(first, writeNat m), (second, writeNat n)]) d) :
    ∃ look, d.named = some look ∧ (look first).bind (readNat maxQuantity) = some m ∧
      (look second).bind (readNat maxQuantity) = some n := by
  obtain ⟨look, hnamed, -, hrel⟩ := Padding.exists_fields h
  have hfirst := hrel first .strict (by simp)
  have hsecond := hrel second .strict (by simp)
  rw [List.lookup_cons_self] at hfirst
  rw [List.lookup_cons, beq_false_of_ne hne.symm, List.lookup_cons_self] at hsecond
  exact ⟨look, hnamed, bind_readNat hfirst hm, bind_readNat hsecond hn⟩

end Written

theorem ItemKind.readsBack (k : ItemKind) : ReadsBack .strict k := .of_same rfl

theorem Equipment.readsBack (e : Equipment) : ReadsBack .strict e := by
  refine .of_same ?_
  cases e <;> rfl

namespace Stack

def InRange (s : Stack) : Prop := s.quantity ≤ maxQuantity

def padding : Padding := .fields [("kind", .strict), ("quantity", .strict), ("aux", .strict)]

/-- A stack is read field by field, and its quantity may be any. -/
theorem read_eq_some_iff {d : Datum} {s : Stack} : read d = some s ↔
    ∃ look, d.fieldsOf fieldNames 3 = some look ∧ field look "kind" = some s.kind ∧
      (look "quantity").bind (readNat maxQuantity) = some s.quantity ∧
        field look "aux" = some s.aux := by
  simp only [Written.read, Option.bind_eq_bind, Option.bind_eq_some_iff, Option.pure_def,
    Option.some.injEq]
  constructor
  · rintro ⟨look, hlook, kind, hkind, quantity, hquantity, aux, haux, rfl⟩
    exact ⟨look, hlook, hkind, hquantity, haux⟩
  · rintro ⟨look, hlook, hkind, hquantity, haux⟩
    exact ⟨look, hlook, s.kind, hkind, s.quantity, hquantity, s.aux, haux, rfl⟩

theorem readsBack {s : Stack} (h : s.InRange) : ReadsBack padding s := by
  refine .of_padded fun d hd => ?_
  obtain ⟨look, -, hlook, hrel⟩ := Padding.exists_fields hd
  have hkind := s.kind.readsBack.field (hrel "kind" .strict (by simp))
  have hquantity := bind_readNat (hrel "quantity" .strict (by simp)) h
  have haux := (readsBack_bytes s.aux).field (hrel "aux" .strict (by simp))
  exact read_eq_some_iff.mpr ⟨look, hlook _ _, hkind, hquantity, haux⟩

theorem readsBack_option {o : Option Stack} (h : ∀ s, o = some s → s.InRange) :
    ReadsBack padding o :=
  .option fun s hs => ⟨readsBack (h s hs), by simp [write]⟩

end Stack

namespace PropertyKind

theorem readsBack (k : PropertyKind) : ReadsBack .strict k := by
  refine .of_same ?_
  cases k <;> rfl

end PropertyKind

namespace PropertyValue

def InRange : PropertyValue → Prop
  | int n => minInteger ≤ n ∧ n ≤ maxInteger
  | position x y => x ≤ maxQuantity ∧ y ≤ maxQuantity
  | _ => True

def padding : Padding := .choice "Position" (twoNumbers "x" "y")

theorem readsBack {v : PropertyValue} (h : v.InRange) : ReadsBack padding v := by
  refine .of_padded fun d hd => ?_
  cases v with
  | position x y =>
    obtain ⟨c, rfl, hc⟩ := Padding.exists_choice hd
    obtain ⟨look, hnamed, hx, hy⟩ := exists_twoNumbers (by decide) h.1 h.2 hc
    simp only [Written.read, readPosition, hnamed, Option.bind_eq_bind, Option.bind_some, hx, hy]
    rfl
  | int n =>
    rw [Padding.eq_of_choice hd (by simp [write])]
    exact congrArg (Option.map int) (readInt_int h)
  | equipment e =>
    rw [Padding.eq_of_choice hd (by simp [write])]
    exact congrArg (Option.map equipment) e.readsBack.same
  | bool b =>
    rw [Padding.eq_of_choice hd (by simp [write])]
    rfl
  | text s =>
    rw [Padding.eq_of_choice hd (by simp [write])]
    rfl

end PropertyValue

namespace ArchetypeId

def padding : Padding := .fields [("namespace", .strict), ("id", .strict)]

theorem readsBack (a : ArchetypeId) : ReadsBack padding a := by
  refine .of_padded fun d hd => ?_
  obtain ⟨look, -, hlook, hrel⟩ := Padding.exists_fields hd
  have hgroup := (readsBack_string a.group).field (hrel "namespace" .strict (by simp))
  have hid := (readsBack_string a.id).field (hrel "id" .strict (by simp))
  simp only [Written.read, hlook, Option.bind_eq_bind, Option.bind_some, hgroup, hid]
  rfl

theorem readsBack_option (o : Option ArchetypeId) : ReadsBack padding o :=
  .option fun a _ => ⟨a.readsBack, by simp [write]⟩

end ArchetypeId

namespace ArchetypeKind

def InRange : ArchetypeKind → Prop
  | grid columns rows => columns ≤ maxQuantity ∧ rows ≤ maxQuantity
  | _ => True

def padding : Padding := .choice "Grid" (twoNumbers "columns" "rows")

theorem readsBack {k : ArchetypeKind} (h : k.InRange) : ReadsBack padding k := by
  refine .of_padded fun d hd => ?_
  cases k with
  | grid columns rows =>
    obtain ⟨c, rfl, hc⟩ := Padding.exists_choice hd
    obtain ⟨look, hnamed, hcolumns, hrows⟩ := exists_twoNumbers (by decide) h.1 h.2 hc
    simp only [Written.read, readGrid, hnamed, Option.bind_eq_bind, Option.bind_some, hcolumns,
      hrows]
    rfl
  | slot =>
    rw [Padding.eq_of_choice hd (by simp [write])]
    rfl
  | ordered =>
    rw [Padding.eq_of_choice hd (by simp [write])]
    rfl

end ArchetypeKind

namespace WireSlot

structure InRange (w : WireSlot) : Prop where
  index : minWire ≤ w.index ∧ w.index ≤ maxWire
  contents : ∀ s, w.contents = some s → s.InRange

def padding : Padding := .fields [("index", .strict), ("contents", Stack.padding)]

theorem readsBack {w : WireSlot} (h : w.InRange) : ReadsBack padding w := by
  refine .of_padded fun d hd => ?_
  obtain ⟨look, -, hlook, hrel⟩ := Padding.exists_fields hd
  have hstack := Stack.readsBack_option h.contents
  have hindex := Padding.eq_of_rel_strict (hrel "index" .strict (by simp))
  have hcontents := hstack.fieldOr (hrel "contents" Stack.padding (by simp)) none
  have hwire : (look "index").bind (readInt minWire maxWire) = some w.index := by
    rw [hindex]
    exact readInt_int h.index
  refine Option.bind_eq_some_iff.mpr ⟨look, hlook _ _, ?_⟩
  refine Option.bind_eq_some_iff.mpr ⟨w.index, hwire, ?_⟩
  exact Option.bind_eq_some_iff.mpr ⟨w.contents, hcontents, rfl⟩

end WireSlot

namespace Snapshot

structure InRange (s : Snapshot) : Prop where
  slots : ∀ w ∈ s.slots, w.InRange
  cursor : ∀ t, s.cursor = some t → t.InRange

def padding : Padding := .fields
  [("title", .strict), ("archetype", ArchetypeId.padding), ("slots", .items WireSlot.padding),
    ("cursor", Stack.padding)]

theorem readsBack {s : Snapshot} (h : s.InRange) : ReadsBack padding s := by
  refine .of_padded fun d hd => ?_
  obtain ⟨look, -, hlook, hrel⟩ := Padding.exists_fields hd
  have hslots : ReadsBack (.items WireSlot.padding) s.slots :=
    .list fun w hw => WireSlot.readsBack (h.slots w hw)
  have htitle := (readsBack_string s.title).field (hrel "title" .strict (by simp))
  have harchetype := (ArchetypeId.readsBack_option s.archetype).fieldOr
    (hrel "archetype" ArchetypeId.padding (by simp)) none
  have hslots := hslots.field (hrel "slots" (.items WireSlot.padding) (by simp))
  have hcursor := (Stack.readsBack_option h.cursor).fieldOr
    (hrel "cursor" Stack.padding (by simp)) none
  refine Option.bind_eq_some_iff.mpr ⟨look, hlook _ _, ?_⟩
  refine Option.bind_eq_some_iff.mpr ⟨s.title, htitle, ?_⟩
  refine Option.bind_eq_some_iff.mpr ⟨s.archetype, harchetype, ?_⟩
  refine Option.bind_eq_some_iff.mpr ⟨s.slots, hslots, ?_⟩
  exact Option.bind_eq_some_iff.mpr ⟨s.cursor, hcursor, rfl⟩

end Snapshot

namespace Settings

def InRange (s : Settings) : Prop := s.defaultMaxStackSize ≤ maxQuantity

def padding : Padding := .fields (fieldNames.map fun name => (name, .strict))

/-- The settings with those of the fields `left` as they are in the standard ones. -/
def resetting (left : List String) (s : Settings) : Settings where
  defaultMaxStackSize := if "default_max_stack_size" ∈ left then standard.defaultMaxStackSize
    else s.defaultMaxStackSize
  defaultName := if "default_name" ∈ left then standard.defaultName else s.defaultName
  isolateListenerPanics := if "isolate_listener_panics" ∈ left then standard.isolateListenerPanics
    else s.isolateListenerPanics
  discardIdleContainers := if "discard_idle_containers" ∈ left then standard.discardIdleContainers
    else s.discardIdleContainers
  returnCursorOnDiscard := if "return_cursor_on_discard" ∈ left then standard.returnCursorOnDiscard
    else s.returnCursorOnDiscard

theorem resetting_nil (s : Settings) : s.resetting [] = s := by
  simp [resetting]

theorem fieldOr_left {α : Type} {look : String → Option Datum} {name : String}
    {left : List String} {missing a : α} {d : Datum} {reader : Datum → Option α}
    (hlook : look name = if name ∈ left then none else some d) (h : reader d = some a) :
    fieldOr look name missing reader = some (if name ∈ left then missing else a) := by
  unfold fieldOr
  by_cases hleft : name ∈ left
  · rw [hlook, if_pos hleft, if_pos hleft]
  · rw [hlook, if_neg hleft, if_neg hleft]
    exact h

theorem read_without {s : Settings} (h : s.InRange) (left : List String) {d : Datum}
    (hd : padding.Pads ((write s).without left) d) : read d = some (s.resetting left) := by
  obtain ⟨look, -, hlook, hrel⟩ := Padding.exists_fields hd
  have hleft : ∀ name ∈ fieldNames, look name = if name ∈ left then none else
      ([("default_max_stack_size", writeNat s.defaultMaxStackSize),
        ("default_name", write s.defaultName),
        ("isolate_listener_panics", write s.isolateListenerPanics),
        ("discard_idle_containers", write s.discardIdleContainers),
        ("return_cursor_on_discard", write s.returnCursorOnDiscard)] :
          List (String × Datum)).lookup name := by
    intro name hname
    have hmem := List.mem_map_of_mem (f := fun name => (name, Padding.strict)) hname
    rw [Padding.eq_of_rel_strict (hrel name .strict hmem), Datum.lookup_without]
  refine Option.bind_eq_some_iff.mpr ⟨look, hlook _ _, ?_⟩
  refine Option.bind_eq_some_iff.mpr ⟨_, fieldOr_left (hleft _ (by decide))
    (readNat_writeNat h), ?_⟩
  refine Option.bind_eq_some_iff.mpr ⟨_, fieldOr_left (hleft _ (by decide))
    (readsBack_string s.defaultName).same, ?_⟩
  refine Option.bind_eq_some_iff.mpr ⟨_, fieldOr_left (hleft _ (by decide))
    (readsBack_bool s.isolateListenerPanics).same, ?_⟩
  refine Option.bind_eq_some_iff.mpr ⟨_, fieldOr_left (hleft _ (by decide))
    (readsBack_bool s.discardIdleContainers).same, ?_⟩
  exact Option.bind_eq_some_iff.mpr ⟨_, fieldOr_left (hleft _ (by decide))
    (readsBack_bool s.returnCursorOnDiscard).same, rfl⟩

theorem readsBack {s : Settings} (h : s.InRange) : ReadsBack padding s := by
  refine .of_padded fun d hd => ?_
  have hread := read_without h [] hd
  rwa [resetting_nil] at hread

end Settings

/-- Values are read back from their written forms, padded or not, and settings of which fields are
left out become the standard ones there. -/
theorem written_forms_read_back :
    (∀ s : Stack, s.InRange → ReadsBack Stack.padding s) ∧
    (∀ a : ArchetypeId, ReadsBack ArchetypeId.padding a) ∧
    (∀ k : ArchetypeKind, k.InRange → ReadsBack ArchetypeKind.padding k) ∧
    (∀ k : PropertyKind, ReadsBack .strict k) ∧
    (∀ v : PropertyValue, v.InRange → ReadsBack PropertyValue.padding v) ∧
    (∀ w : WireSlot, w.InRange → ReadsBack WireSlot.padding w) ∧
    (∀ s : Snapshot, s.InRange → ReadsBack Snapshot.padding s) ∧
    ∀ s : Settings, s.InRange → ReadsBack Settings.padding s ∧
      ∀ (left : List String) (d : Datum), Settings.padding.Pads ((write s).without left) d →
        read d = some (s.resetting left) :=
  ⟨fun _ h => Stack.readsBack h, ArchetypeId.readsBack, fun _ h => ArchetypeKind.readsBack h,
    PropertyKind.readsBack, fun _ h => PropertyValue.readsBack h, fun _ h => WireSlot.readsBack h,
    fun _ h => Snapshot.readsBack h,
    fun _ h => ⟨Settings.readsBack h, fun left _ hd => Settings.read_without h left hd⟩⟩

section Limits

def Stack.largest : Stack := ⟨⟨"minecraft:stone"⟩, maxQuantity, [0, 255]⟩

def Snapshot.wide : Snapshot :=
  ⟨"", none, [⟨minWire, some .largest⟩, ⟨maxWire, none⟩], some .largest⟩

def Datum.lore : Datum := .record
  [("aux", .list [.int 0, .int 255]), ("lore", .list [.record [("kind", .null)]]),
    ("quantity", .int 4294967295), ("kind", .text "minecraft:stone")]

def Datum.wide : Datum := .record
  [("version", .real), ("cursor", .lore),
    ("slots", .list
      [.record [("contents", .lore), ("index", .int (-2147483648)), ("locked", .bool true)],
        .record [("index", .int 2147483647), ("contents", .null)]]),
    ("archetype", .null), ("title", .text "")]

def Datum.brief : Datum := .record
  [("default_max_stack", .int 1), ("default_max_stack_size", .int 0)]

theorem Stack.largest_inRange : largest.InRange := Nat.le_refl _

theorem Snapshot.wide_inRange : wide.InRange where
  slots w hw := by
    simp only [wide, List.mem_cons, List.not_mem_nil, or_false] at hw
    rcases hw with rfl | rfl
    · exact ⟨by decide, fun s hs => by cases hs; exact Stack.largest_inRange⟩
    · exact ⟨by decide, fun s hs => nomatch hs⟩
  cursor t ht := by
    cases ht
    exact Stack.largest_inRange

theorem Stack.pads_lore : padding.Pads (write largest) .lore := by
  refine Padding.pads_cons (.cons rfl .nil) ?_
  refine Padding.pads_cons (.cons rfl .nil) ?_
  exact Padding.pads_cons (.cons rfl .nil) Padding.pads_nil

theorem WireSlot.pads_lore : padding.Pads (write (WireSlot.mk minWire (some .largest)))
    (.record [("contents", .lore), ("index", .int (-2147483648)), ("locked", .bool true)]) := by
  refine Padding.pads_cons (.cons rfl .nil) ?_
  exact Padding.pads_cons (.cons Stack.pads_lore .nil) Padding.pads_nil

theorem Snapshot.pads_wide : padding.Pads (write wide) .wide := by
  refine Padding.pads_cons (.cons rfl .nil) ?_
  refine Padding.pads_cons (.cons rfl .nil) ?_
  refine Padding.pads_cons (.cons (.cons WireSlot.pads_lore (.cons ?_ .nil)) .nil) ?_
  · exact Padding.refl _ _
  · exact Padding.pads_cons (.cons Stack.pads_lore .nil) Padding.pads_nil

theorem Settings.pads_brief : padding.Pads
    ((write (Settings.mk 0 "chest" false false false)).without
      ["default_name", "isolate_listener_panics", "discard_idle_containers",
        "return_cursor_on_discard"]) .brief :=
  Padding.pads_insert [] [("default_max_stack_size", .int 0)] (.int 1) (by decide)

theorem written_forms_read_back_wide :
    (Stack.largest.InRange ∧ read .lore = some Stack.largest) ∧
    ((ArchetypeKind.grid maxQuantity 0).InRange ∧
      ReadsBack ArchetypeKind.padding (ArchetypeKind.grid maxQuantity 0)) ∧
    ((PropertyValue.int minInteger).InRange ∧
      ReadsBack PropertyValue.padding (PropertyValue.int minInteger)) ∧
    ((WireSlot.mk minWire none).InRange ∧
      ReadsBack WireSlot.padding (WireSlot.mk minWire none)) ∧
    (Snapshot.wide.InRange ∧ read .wide = some Snapshot.wide) ∧
    Settings.InRange ⟨0, "chest", false, false, false⟩ ∧
      read .brief = some { Settings.standard with defaultMaxStackSize := 0 } := by
  obtain ⟨hstack, -, hkind, -, hvalue, hwire, hsnapshot, hsettings⟩ := written_forms_read_back
  have hgrid : (ArchetypeKind.grid maxQuantity 0).InRange := ⟨Nat.le_refl _, Nat.zero_le _⟩
  have hleast : (PropertyValue.int minInteger).InRange := ⟨Int.le_refl _, by decide⟩
  have hempty : WireSlot.InRange ⟨minWire, none⟩ := ⟨by decide, fun s hs => nomatch hs⟩
  have hzero : Settings.InRange ⟨0, "chest", false, false, false⟩ := Nat.zero_le _
  refine ⟨⟨Stack.largest_inRange, (hstack _ Stack.largest_inRange).padded _ Stack.pads_lore⟩,
    ⟨hgrid, hkind _ hgrid⟩, ⟨hleast, hvalue _ hleast⟩, ⟨hempty, hwire _ hempty⟩,
    ⟨Snapshot.wide_inRange, (hsnapshot _ Snapshot.wide_inRange).padded _ Snapshot.pads_wide⟩,
    hzero, ?_⟩
  exact (hsettings _ hzero).2 _ _ Settings.pads_brief

end Limits

end Stowage
