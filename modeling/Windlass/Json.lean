import Mathlib

/-!
# JSON values

Values as a parser leaves them, with the entries of each object in the order of the
text, and how the fields of a record are read from one. What a floating-point number
is stays open.
-/

namespace Json

inductive Number (F : Type)
  | posInt (n : UInt64)
  | negInt (n : Int64)
  | float (x : F)

inductive Value (F : Type)
  | null
  | bool (b : Bool)
  | number (n : Number F)
  | text (s : String)
  | array (items : List (Value F))
  | object (entries : List (String × Value F))

/-! ## Maps -/

section
variable {V : Type}

/-- A map is sorted by its keys. -/
def put (key : String) (value : V) : List (String × V) → List (String × V)
  | [] => [(key, value)]
  | e :: map =>
    if key < e.1 then (key, value) :: e :: map
    else if key = e.1 then (key, value) :: map
    else e :: put key value map

/-- The map that is left of these entries: a later one replaces an earlier one. -/
def collect (entries : List (String × V)) : List (String × V) :=
  entries.foldl (fun map e => put e.1 e.2 map) []

end

/-! ## Values of a map type -/

variable {F α β : Type}

mutual

/-- A value whose objects are maps, all the way down. -/
def Value.settled : Value F → Value F
  | .array items => .array (settledItems items)
  | .object entries => .object (collect (settledEntries entries))
  | v => v

def settledItems : List (Value F) → List (Value F)
  | [] => []
  | v :: items => v.settled :: settledItems items

def settledEntries : List (String × Value F) → List (String × Value F)
  | [] => []
  | (key, v) :: entries => (key, v.settled) :: settledEntries entries

end

def Value.int (n : Int) : Value F :=
  .number (if 0 ≤ n then .posInt (.ofNat n.toNat) else .negInt (.ofInt n))

/-! ## Reading values -/

def Value.bool? : Value F → Option Bool
  | .bool b => some b
  | _ => none

def Value.text? : Value F → Option String
  | .text s => some s
  | _ => none

def Value.u64? : Value F → Option Nat
  | .number (.posInt n) => some n.toNat
  | .number (.negInt n) => if 0 ≤ n.toInt then some n.toInt.toNat else none
  | _ => none

def Value.i64? : Value F → Option Int
  | .number (.posInt n) => if n.toNat < 2 ^ 63 then some n.toNat else none
  | .number (.negInt n) => some n.toInt
  | _ => none

/-- A number, as the floating-point number nearest to it. -/
def Value.float? (float : Number F → F) : Value F → Option F
  | .number n => some (float n)
  | _ => none

def Value.option (read : Value F → Option α) : Value F → Option (Option α)
  | .null => some none
  | v => (read v).map some

def Value.list (read : Value F → Option α) : Value F → Option (List α)
  | .array items => items.mapM read
  | _ => none

/-- The map of an object. -/
def Value.map? : Value F → Option (List (String × Value F))
  | .object entries => some (collect (settledEntries entries))
  | _ => none

/-- An entry of an object that is a map. -/
def Value.get? (key : String) : Value F → Option (Value F)
  | .object entries => entries.lookup key
  | _ => none

/-! ## Reading records -/

inductive Field (F : Type)
  | sent (v : Value F)
  | absent
  | short

/-- The fields of a record: by name from an object, in which none is repeated, or in
their order from an array. Other names are ignored. -/
def Value.record (names : List String) : Value F → Option (String → Field F)
  | .object entries =>
    if names.all fun name => (entries.filter fun e => e.1 == name).length ≤ 1 then
      some fun name => match entries.lookup name with
        | some v => .sent v
        | none => .absent
    else none
  | .array items =>
    if items.length ≤ names.length then
      some fun name => match items[names.idxOf name]? with
        | some v => .sent v
        | none => .short
    else none
  | _ => none

def Field.required (read : Value F → Option α) : Field F → Option α
  | .sent v => read v
  | .absent | .short => none

def Field.optional (read : Value F → Option α) : Field F → Option (Option α)
  | .sent v => v.option read
  | .absent => some none
  | .short => none

def Field.orElse (default : α) (read : Value F → Option α) : Field F → Option α
  | .sent v => read v
  | .absent | .short => some default

/-! ## Fields of an object -/

section
variable {entries : List (String × Value F)} {read : Value F → Option α}

/-- The field of a name in an object. -/
def fieldOf (entries : List (String × Value F)) (name : String) : Field F :=
  match entries.lookup name with
  | some v => .sent v
  | none => .absent

theorem record_object (h : (entries.map Prod.fst).Nodup) (names : List String) :
    (Value.object entries).record names = some (fieldOf entries) := by
  have honce : names.all fun name => (entries.filter fun e => e.1 == name).length ≤ 1 := by
    rw [List.all_eq_true]
    intro name _
    have hcount : (entries.filter fun e => e.1 == name).length = (entries.map Prod.fst).count name := by
      rw [List.count, List.countP_map, List.countP_eq_length_filter]
      rfl
    rw [hcount, decide_eq_true_eq]
    exact List.nodup_iff_count_le_one.mp h name
  unfold Value.record
  dsimp only
  rw [if_pos honce]
  rfl

theorem optional_field {name : String} (hnull : read .null = none)
    (h : ∀ v, entries.lookup name = some v → (read v).isSome) :
    (fieldOf entries name).optional read = some ((entries.lookup name).bind read) := by
  unfold fieldOf
  cases hv : entries.lookup name with
  | none => rfl
  | some v =>
    obtain ⟨a, ha⟩ := Option.isSome_iff_exists.mp (h v hv)
    have hne : v ≠ .null := by
      intro heq
      rw [heq, hnull] at ha
      cases ha
    have hoption : v.option read = (read v).map some := by
      cases v <;> first | rfl | exact absurd rfl hne
    rw [Option.bind_some]
    change v.option read = _
    rw [hoption, ha]
    rfl

end

end Json
