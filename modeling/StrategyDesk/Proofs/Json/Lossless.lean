import StrategyDesk.Json.Form
import StrategyDesk.Proofs.Calendar.Rfc3339
import StrategyDesk.Proofs.Decimal.Nearest

/-!
This module contains the forms in which nothing is lost: what can be written is read back, and
nothing else is read. That a record has such a form comes down to its members, each of which is
looked up by its name.
-/

namespace StrategyDesk

open JsonForm

inductive Json.IsProper : Json → Prop where
  | null : IsProper .null
  | bool {b : Bool} : IsProper (.bool b)
  | int {n : Int} (hfirst : -Nat.pow 2 63 ≤ n) (hlast : n < Nat.pow 2 64) : IsProper (.int n)
  | float {x : Float} (h : Arithmetic.isFinite x = true) : IsProper (.float x)
  | string {s : String} : IsProper (.string s)
  | array {elements : List Json} (h : ∀ j ∈ elements, IsProper j) : IsProper (.array elements)
  | object {members : List (String × Json)} (h : ∀ m ∈ members, IsProper m.2) :
    IsProper (.object members)

namespace Json

@[simp]
theorem isProper_string (s : String) : (Json.string s).IsProper :=
  .string

@[simp]
theorem isProper_int_iff {n : Int} :
    (Json.int n).IsProper ↔ -Nat.pow 2 63 ≤ n ∧ n < Nat.pow 2 64 :=
  ⟨fun h => by cases h with | int hfirst hlast => exact ⟨hfirst, hlast⟩, fun h => .int h.1 h.2⟩

@[simp]
theorem isProper_float_iff {x : Float} : (Json.float x).IsProper ↔ Arithmetic.isFinite x = true :=
  ⟨fun h => by cases h with | float h => exact h, .float⟩

@[simp]
theorem isProper_array_iff {elements : List Json} :
    (Json.array elements).IsProper ↔ ∀ j ∈ elements, j.IsProper :=
  ⟨fun h => by cases h with | array h => exact h, .array⟩

@[simp]
theorem isProper_object_iff {members : List (String × Json)} :
    (Json.object members).IsProper ↔ ∀ m ∈ members, m.2.IsProper :=
  ⟨fun h => by cases h with | object h => exact h, .object⟩

end Json

/--
A form in which nothing is lost. The values that can be written are read back, no others are read, and
none is written as null, which stands for a field that is left out.
-/
class LosslessForm (α : Type) [JsonForm α] where
  Writable : α → Prop
  ofJson?_toJson {x : α} (h : Writable x) (void : NoContent) : ofJson? void (toJson x) = some x
  writable_of_ofJson? {void : NoContent} {j : Json} {x : α} (hj : j.IsProper)
    (h : ofJson? void j = some x) : Writable x
  ofJson?_null (void : NoContent) : ofJson? void .null = (none : Option α)

export LosslessForm (Writable)

/-! ## Values -/

namespace LosslessForm

theorem ofFloat_of_isFinite {x : Float} (h : Arithmetic.isFinite x = true) :
    Json.ofFloat x = .float x := by
  unfold Json.ofFloat
  split
  . rfl
  . next hfinite =>
    simp only [Arithmetic.isFinite] at h
    cases h

section Lists

variable {β γ : Type} {f : β → Option γ} {g : γ → β} {xs : List β} {ys : List γ}

theorem mapM_map_eq_some (h : ∀ y ∈ ys, f (g y) = some y) : (ys.map g).mapM f = some ys := by
  induction ys with
  | nil => rfl
  | cons y ys ih =>
    rw [List.forall_mem_cons] at h
    rw [List.map_cons, List.mapM_cons, h.1, ih h.2]
    rfl

theorem exists_of_mem_mapM (h : xs.mapM f = some ys) : ∀ y ∈ ys, ∃ x ∈ xs, f x = some y := by
  induction xs generalizing ys with
  | nil =>
    injection h with h
    subst h
    exact nofun
  | cons x xs ih =>
    rw [List.mapM_cons] at h
    simp only [Option.bind_eq_bind, Option.bind_eq_some_iff] at h
    obtain ⟨z, hz, zs, hzs, h⟩ := h
    injection h with h
    subst h
    rw [List.forall_mem_cons]
    constructor
    . exact ⟨x, List.mem_cons_self, hz⟩
    . intro y hy
      obtain ⟨x', hx', hy⟩ := ih hzs y hy
      exact ⟨x', List.mem_cons_of_mem _ hx', hy⟩

end Lists

instance : LosslessForm Bool where
  Writable _ := True
  ofJson?_toJson _ _ := rfl
  writable_of_ofJson? _ _ := trivial
  ofJson?_null _ := rfl

instance : LosslessForm String where
  Writable _ := True
  ofJson?_toJson _ _ := rfl
  writable_of_ofJson? _ _ := trivial
  ofJson?_null _ := rfl

instance : LosslessForm Nat where
  Writable n := n < Nat.pow 2 64
  ofJson?_toJson {n} h _ := by
    simp [ofJson?, toJson] at h ⊢
    omega
  writable_of_ofJson? {_ j n} _ h := by
    cases j with
    | int m =>
      simp [ofJson?] at h ⊢
      omega
    | _ => cases h
  ofJson?_null _ := rfl

instance : LosslessForm Float where
  Writable x := Arithmetic.isFinite x = true
  ofJson?_toJson {x} h _ := by
    show ofJson? _ (Json.ofFloat x) = _
    rw [ofFloat_of_isFinite h]
    rfl
  writable_of_ofJson? {_ j x} hj h := by
    cases hj with
    | int hfirst hlast =>
      injection h with h
      rw [← h]
      apply Binary64.isFinite_nearest_of_whole
      simp at hfirst hlast ⊢
      omega
    | float hx =>
      injection h with h
      rw [← h]
      exact hx
    | _ => cases h
  ofJson?_null _ := rfl

instance : LosslessForm Instant where
  Writable := Instant.IsProper
  ofJson?_toJson h _ := Instant.readRelaxed_rfc3339 h
  writable_of_ofJson? {_ j _} _ h := by
    cases j with
    | string s => exact Instant.isProper_of_readRelaxed h
    | _ => cases h
  ofJson?_null _ := rfl

instance {α : Type} [JsonForm α] [LosslessForm α] : LosslessForm (List α) where
  Writable xs := ∀ x ∈ xs, Writable x
  ofJson?_toJson h void := mapM_map_eq_some fun x hx => ofJson?_toJson (h x hx) void
  writable_of_ofJson? {void j xs} hj h := by
    cases hj with
    | array hj =>
      intro x hx
      obtain ⟨j, hmem, hread⟩ := exists_of_mem_mapM h x hx
      exact writable_of_ofJson? (hj j hmem) hread
    | _ => cases h
  ofJson?_null _ := rfl

@[reducible]
def ofNames {α : Type} {name : α → String} {ofName? : String → Option α}
    (hname : ∀ x, ofName? (name x) = some x) : @LosslessForm α (JsonForm.ofNames name ofName?) :=
  @LosslessForm.mk α (.ofNames name ofName?) (fun _ => True) (fun _ _ => hname _)
    (fun _ _ => trivial) (fun _ => rfl)

end LosslessForm

/-! ## Records -/

namespace Json

open LosslessForm

def written (members : List (String × Option Json)) : List (String × Json) :=
  members.filterMap fun (name, value) => value.map fun value => (name, value)

section Lookup

variable {members : List (String × Option Json)} {name other : String}

theorem lookup_written_of_ne (h : name ≠ other) (value : Option Json) :
    (written ((other, value) :: members)).lookup name = (written members).lookup name := by
  cases value with
  | none => rfl
  | some value =>
    have hne : (name == other) = false := beq_eq_false_iff_ne.mpr h
    show List.lookup name ((other, value) :: written members) = _
    rw [List.lookup_cons, hne]

theorem lookup_written_of_notMem (h : name ∉ members.map Prod.fst) :
    (written members).lookup name = none := by
  induction members with
  | nil => rfl
  | cons first members ih =>
    rw [List.map_cons, List.mem_cons, not_or] at h
    rw [lookup_written_of_ne h.1, ih h.2]

theorem lookup_written_cons (h : name ∉ members.map Prod.fst) (value : Option Json) :
    (written ((name, value) :: members)).lookup name = value := by
  cases value with
  | none =>
    show (written members).lookup name = none
    exact lookup_written_of_notMem h
  | some value =>
    show List.lookup name ((name, value) :: written members) = _
    rw [List.lookup_cons_self]

end Lookup

namespace Fields

variable {fs : Fields} {void : NoContent} {members sub : List (String × Option Json)} {name : String}

def Show (fs : Fields) (members : List (String × Option Json)) : Prop :=
  ∀ name value, (name, value) ∈ members → fs.values.lookup name = value

theorem Show.mono (h : fs.Show members) (hsub : sub ⊆ members) : fs.Show sub :=
  fun name value hmem => h name value (hsub hmem)

theorem show_written (h : (members.map Prod.fst).Nodup) :
    Show { values := written members, void } members := by
  induction members with
  | nil => exact nofun
  | cons first members ih =>
    obtain ⟨hfirst, hrest⟩ := List.nodup_cons.mp h
    intro name value hmem
    rcases List.mem_cons.mp hmem with rfl | hmem
    . exact lookup_written_cons hfirst value
    . have hne : name ≠ first.1 := by
        intro heq
        apply hfirst
        rw [← heq]
        exact List.mem_map_of_mem hmem
      rw [lookup_written_of_ne hne]
      exact ih hrest name value hmem

theorem ofJson?_option {α : Type} [JsonForm α] {j : Json} (hj : j ≠ .null) :
    ofJson? void j = ((ofJson? void j : Option α).map some) := by
  cases j with
  | null => exact absurd rfl hj
  | _ => rfl

section Reading

variable {α : Type} [JsonForm α] [LosslessForm α]

theorem Show.required {x : α} (h : fs.Show members) (hmem : member name x ∈ members)
    (hx : Writable x) : fs.required name = some x := by
  unfold Fields.required
  rw [h _ _ hmem, Option.bind_some, ofJson?_toJson hx]

theorem toJson_ne_null {x : α} (hx : Writable x) : toJson x ≠ .null := by
  intro hnull
  have hread := ofJson?_toJson hx .null
  rw [hnull, ofJson?_null] at hread
  cases hread

theorem Show.optional {x : Option α} (h : fs.Show members) (hmem : memberIf name x ∈ members)
    (hx : ∀ y ∈ x, Writable y) : fs.optional name = some x := by
  unfold Fields.optional withDefault
  rw [h _ _ hmem]
  cases x with
  | none => rfl
  | some x =>
    have hx := hx x rfl
    show ofJson? fs.void (toJson x) = _
    rw [ofJson?_option (toJson_ne_null hx), ofJson?_toJson hx]
    rfl

theorem Show.withDefault {x default : α} (h : fs.Show members) (hmem : member name x ∈ members)
    (hx : Writable x) : fs.withDefault name default = some x := by
  unfold Fields.withDefault
  rw [h _ _ hmem]
  exact ofJson?_toJson hx fs.void

end Reading

def IsProper (fs : Fields) : Prop :=
  ∀ m ∈ fs.values, m.2.IsProper

section Proper

variable {α : Type} [JsonForm α] [LosslessForm α]

theorem isProper_of_fields? {j : Json} {names : List String} (hj : j.IsProper)
    (h : j.fields? names void = some fs) : fs.IsProper := by
  cases hj with
  | object hmembers =>
    injection h with h
    subst h
    exact hmembers
  | array helements =>
    unfold fields? at h
    dsimp only at h
    split at h
    . injection h with h
      subst h
      intro m hmem
      exact helements m.2 (List.of_mem_zip hmem).2
    . cases h
  | _ => cases h

theorem IsProper.lookup {j : Json} (h : fs.IsProper) (hj : fs.values.lookup name = some j) :
    j.IsProper := by
  obtain ⟨before, after, heq, _⟩ := List.lookup_eq_some_iff.mp hj
  apply h (name, j)
  rw [heq]
  simp

theorem IsProper.required {x : α} (h : fs.IsProper) (hx : fs.required name = some x) :
    Writable x := by
  obtain ⟨j, hj, hx⟩ := Option.bind_eq_some_iff.mp hx
  exact writable_of_ofJson? (h.lookup hj) hx

theorem IsProper.withDefault {x default : α} (h : fs.IsProper) (hdefault : Writable default)
    (hx : fs.withDefault name default = some x) : Writable x := by
  unfold Fields.withDefault at hx
  split at hx
  . injection hx with hx
    rw [← hx]
    exact hdefault
  . next j hj => exact writable_of_ofJson? (h.lookup hj) hx

theorem IsProper.optional {x : Option α} (h : fs.IsProper) (hx : fs.optional name = some x) :
    ∀ y ∈ x, Writable y := by
  unfold Fields.optional Fields.withDefault at hx
  split at hx
  . injection hx with hx
    rw [← hx]
    exact nofun
  . next j hj =>
    by_cases hnull : j = .null
    . rw [hnull] at hx
      injection hx with hx
      rw [← hx]
      exact nofun
    . rw [ofJson?_option hnull, Option.map_eq_some_iff] at hx
      obtain ⟨y, hy, rfl⟩ := hx
      rintro _ ⟨⟩
      exact writable_of_ofJson? (h.lookup hj) hy

end Proper

end Fields

section Forms

variable {α : Type} {members : List (String × Option Json)} {names : List String} {void : NoContent}
  {read : Fields → Option α} {x : α}

theorem bind_fields?_record (hnames : (members.map Prod.fst).Nodup)
    (hread : ∀ fs : Fields, fs.Show members → read fs = some x) :
    ((record members).fields? names void).bind read = some x :=
  hread _ (Fields.show_written hnames)

theorem exists_fields {j : Json} (hj : j.IsProper) (h : (j.fields? names void).bind read = some x) :
    ∃ fs : Fields, fs.IsProper ∧ read fs = some x := by
  obtain ⟨fs, hfs, hread⟩ := Option.bind_eq_some_iff.mp h
  exact ⟨fs, Fields.isProper_of_fields? hj hfs, hread⟩

end Forms

section Tags

variable {tag kind : String}

theorem tagged?_object {values : List (String × Json)}
    (h : values.lookup tag = some (.string kind)) :
    (object values).tagged? tag = some (kind, .object values) := by
  unfold tagged?
  dsimp only
  rw [h]

theorem isProper_of_tagged? {j content : Json} (hj : j.IsProper)
    (h : j.tagged? tag = some (kind, content)) : content.IsProper := by
  unfold tagged? at h
  split at h
  . split at h
    . cases h
      exact hj
    . cases h
  . cases h
    cases hj with
    | array helements => exact .array fun j hmem => helements j (List.mem_cons_of_mem _ hmem)
  . cases h

end Tags

end Json
end StrategyDesk
