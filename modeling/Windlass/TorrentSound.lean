import Windlass.TorrentFile

/-!
# Reading torrent files back

A bencoded value is parsed back from what encodes it, whatever follows, and a
dictionary keeps the encodings of its values. So a torrent file is named by its
info dictionary as it stands in the file, and has the size of all its files.
-/

namespace Windlass.TorrentFile

open Scan

/-! ## Bencoding -/

inductive Bencode
  | integer (n : I64)
  | bytes (bytes : Bytes)
  | list (items : List Bencode)
  | dictionary (entries : List (Bytes × Bencode))

def encodeBytes (bytes : Bytes) : Bytes := Decimal.writeNat bytes.length ++ ascii ':' :: bytes

mutual

def Bencode.encode : Bencode → Bytes
  | .integer n => ascii 'i' :: (Decimal.writeInt n.1 ++ [ascii 'e'])
  | .bytes b => encodeBytes b
  | .list items => ascii 'l' :: (encodeItems items ++ [ascii 'e'])
  | .dictionary entries => ascii 'd' :: (encodeEntries entries ++ [ascii 'e'])

def encodeItems : List Bencode → Bytes
  | [] => []
  | item :: items => item.encode ++ encodeItems items

def encodeEntries : List (Bytes × Bencode) → Bytes
  | [] => []
  | (key, value) :: entries => encodeBytes key ++ value.encode ++ encodeEntries entries

end

mutual

/-- How many levels the value's parts, keys among them, are nested in. -/
def Bencode.depth : Bencode → Nat
  | .integer _ | .bytes _ => 0
  | .list items => itemsDepth items
  | .dictionary entries => entriesDepth entries

def itemsDepth : List Bencode → Nat
  | [] => 0
  | item :: items => max (item.depth + 1) (itemsDepth items)

def entriesDepth : List (Bytes × Bencode) → Nat
  | [] => 0
  | (_, value) :: entries => max (value.depth + 1) (entriesDepth entries)

end

mutual

/-- The value as parsed, each dictionary value with its encoding. -/
def Bencode.value : Bencode → Value
  | .integer n => .integer n
  | .bytes b => .bytes b
  | .list items => .list (itemValues items)
  | .dictionary entries => .dictionary (entryValues entries)

def itemValues : List Bencode → List Value
  | [] => []
  | item :: items => item.value :: itemValues items

def entryValues : List (Bytes × Bencode) → List (Bytes × Value × Bytes)
  | [] => []
  | (key, value) :: entries => (key, value.value, value.encode) :: entryValues entries

end

@[elab_as_elim]
theorem Bencode.induct {motive : Bencode → Prop} (integer : ∀ n, motive (.integer n))
    (bytes : ∀ b, motive (.bytes b))
    (list : ∀ items, (∀ item ∈ items, motive item) → motive (.list items))
    (dictionary : ∀ entries, (∀ entry ∈ entries, motive entry.2) → motive (.dictionary entries))
    (v : Bencode) : motive v := by
  refine Bencode.rec (motive_1 := motive) (motive_2 := fun items => ∀ item ∈ items, motive item)
    (motive_3 := fun entries => ∀ entry ∈ entries, motive entry.2)
    (motive_4 := fun entry => motive entry.2)
    integer bytes list dictionary ?_ ?_ ?_ ?_ ?_ v
  · nofun
  · exact fun item items hitem hitems => List.forall_mem_cons.mpr ⟨hitem, hitems⟩
  · nofun
  · exact fun entry entries hentry hentries => List.forall_mem_cons.mpr ⟨hentry, hentries⟩
  · exact fun _ _ h => h

theorem encodeItems_eq (items : List Bencode) : encodeItems items = items.flatMap Bencode.encode := by
  induction items with
  | nil => rfl
  | cons item items ih => rw [encodeItems, ih, List.flatMap_cons]

theorem encodeEntries_eq (entries : List (Bytes × Bencode)) :
    encodeEntries entries = entries.flatMap fun entry => encodeBytes entry.1 ++ entry.2.encode := by
  induction entries with
  | nil => rfl
  | cons entry entries ih => rw [encodeEntries, ih, List.flatMap_cons]

theorem itemValues_eq (items : List Bencode) : itemValues items = items.map Bencode.value := by
  induction items with
  | nil => rfl
  | cons item items ih => rw [itemValues, ih, List.map_cons]

theorem entryValues_eq (entries : List (Bytes × Bencode)) :
    entryValues entries = entries.map fun entry => (entry.1, entry.2.value, entry.2.encode) := by
  induction entries with
  | nil => rfl
  | cons entry entries ih => rw [entryValues, ih, List.map_cons]

theorem depth_item {items : List Bencode} {item : Bencode} (h : item ∈ items) :
    item.depth < itemsDepth items := by
  induction items with
  | nil => cases h
  | cons other items ih =>
    rw [itemsDepth]
    obtain rfl | h := List.mem_cons.mp h
    · exact Nat.le_max_left (item.depth + 1) _
    · exact (ih h).trans_le (Nat.le_max_right _ _)

theorem depth_entry {entries : List (Bytes × Bencode)} {entry : Bytes × Bencode} (h : entry ∈ entries) :
    entry.2.depth < entriesDepth entries := by
  induction entries with
  | nil => cases h
  | cons other entries ih =>
    rw [entriesDepth]
    obtain rfl | h := List.mem_cons.mp h
    · exact Nat.le_max_left (entry.2.depth + 1) _
    · exact (ih h).trans_le (Nat.le_max_right _ _)

/-! ## Integers and strings -/

theorem finIdxOf_append {before : Bytes} {b : UInt8} (h : b ∉ before) (r : Bytes) :
    ∃ i, (before ++ b :: r).finIdxOf? b = some i ∧ i.1 = before.length := by
  refine ⟨⟨before.length, by simp⟩, ?_, rfl⟩
  rw [List.finIdxOf?_eq_some_iff]
  refine ⟨by simp, fun j hj => ?_⟩
  have hlt : j.1 < before.length := hj
  intro he
  rw [Fin.getElem_fin, List.getElem_append_left hlt] at he
  exact h (he ▸ List.getElem_mem hlt)

theorem parse_signed (n : I64) : I64.parse (Decimal.writeInt n.1) = some n := by
  unfold I64.parse
  rw [Decimal.signed_writeInt, Option.bind_some, dif_pos n.2]

theorem parseInteger_run {input : Bytes} {i : Fin input.length}
    (h : input.finIdxOf? (ascii 'e') = some i) :
    parseInteger.run input =
      (I64.parse ((input.take i.1).drop 1)).map fun n => (.integer n, input.drop (i.1 + 1)) := by
  unfold Scanner.run parseInteger
  rw [h, Option.bind_some, Option.map_map]
  rfl

theorem parseInteger_encode (n : I64) (r : Bytes) :
    parseInteger.run ((Bencode.integer n).encode ++ r) = some (.integer n, r) := by
  have hno : ascii 'e' ∉ ascii 'i' :: Decimal.writeInt n.1 := by
    rw [List.mem_cons]
    rintro (h | h)
    · exact absurd h (by decide)
    · exact absurd (Decimal.writeInt_bytes n.1 _ h) (by decide)
  have hsplit : (Bencode.integer n).encode ++ r = (ascii 'i' :: Decimal.writeInt n.1) ++
      ascii 'e' :: r := by
    simp [Bencode.encode]
  obtain ⟨i, hi, hval⟩ := finIdxOf_append hno r
  rw [hsplit, parseInteger_run hi, hval, List.take_left, List.drop_one, List.tail_cons,
    parse_signed, Option.map_some,
    List.drop_append, List.drop_eq_nil_of_le (Nat.le_succ _)]
  simp

theorem parseBytes_run {input : Bytes} {i : Fin input.length}
    (h : input.finIdxOf? (ascii ':') = some i) {length : Nat}
    (hlength : parseUsize (input.take i.1) = some length) (hend : i.1 + 1 + length ≤ u64Max)
    (hinput : i.1 + 1 + length ≤ input.length) :
    parseBytes.run input =
      some (.bytes ((input.take (i.1 + 1 + length)).drop (i.1 + 1)), input.drop (i.1 + 1 + length)) := by
  unfold Scanner.run parseBytes
  rw [h, Option.bind_some, hlength, Option.bind_some]
  dsimp only
  rw [dif_pos ⟨hend, hinput⟩]
  rfl

theorem parseBytes_encode (b r : Bytes) (h : (encodeBytes b ++ r).length ≤ u64Max) :
    parseBytes.run (encodeBytes b ++ r) = some (.bytes b, r) := by
  have hno : ascii ':' ∉ Decimal.writeNat b.length := by
    intro h
    exact absurd (Decimal.writeNat_digits _ _ h) (by decide)
  have hsplit : encodeBytes b ++ r = Decimal.writeNat b.length ++ ascii ':' :: (b ++ r) := by
    simp [encodeBytes]
  rw [hsplit] at h ⊢
  obtain ⟨i, hi, hval⟩ := finIdxOf_append hno (b ++ r)
  have hend : i.1 + 1 + b.length ≤ (Decimal.writeNat b.length ++ ascii ':' :: (b ++ r)).length := by
    rw [hval]
    simp only [List.length_append, List.length_cons]
    omega
  have hlength : parseUsize ((Decimal.writeNat b.length ++ ascii ':' :: (b ++ r)).take i.1) =
      some b.length := by
    have hroom : b.length ≤ u64Max := (Nat.le_add_left _ _).trans (hend.trans h)
    unfold parseUsize
    rw [hval, List.take_left, Decimal.unsigned_writeNat]
    simp [Option.filter, hroom]
  rw [parseBytes_run hi hlength (hend.trans h) hend, hval]
  have hcut : Decimal.writeNat b.length ++ ascii ':' :: (b ++ r) =
      (Decimal.writeNat b.length ++ [ascii ':']) ++ b ++ r := by simp
  have hfirst : (Decimal.writeNat b.length ++ [ascii ':']).length =
    (Decimal.writeNat b.length).length + 1 := by simp
  rw [hcut, ← hfirst, ← List.length_append, List.take_left, List.drop_left, List.drop_left]

/-! ## Values -/

theorem parseWithin_integer (levels : Nat) (rest : Bytes) :
    (parseWithin (levels + 1)).run (ascii 'i' :: rest) = parseInteger.run (ascii 'i' :: rest) := rfl

theorem parseWithin_list (levels : Nat) (rest : Bytes) :
    (parseWithin (levels + 1)).run (ascii 'l' :: rest) =
    (Scanner.run (many (ascii 'e') (parseWithin levels)) rest).map fun p => (.list p.1, p.2) := by
  have hl : parseWithin (levels + 1) (ascii 'l' :: rest) =
    (many (ascii 'e') (parseWithin levels) rest).map
      fun p => (.list p.1, (Rest.tail _ rest).trans p.2) := rfl
  unfold Scanner.run
  rw [hl, Option.map_map, Option.map_map]
  rfl

theorem parseWithin_dictionary (levels : Nat) (rest : Bytes) :
    (parseWithin (levels + 1)).run (ascii 'd' :: rest) =
    (Scanner.run (many (ascii 'e') (parseEntry (parseWithin levels))) rest).map fun p =>
    (.dictionary p.1, p.2) := by
  have hd : parseWithin (levels + 1) (ascii 'd' :: rest) =
      (many (ascii 'e') (parseEntry (parseWithin levels)) rest).map
        fun p => (.dictionary p.1, (Rest.tail _ rest).trans p.2) := rfl
  unfold Scanner.run
  rw [hd, Option.map_map, Option.map_map]
  rfl

theorem parseWithin_digit {levels : Nat} {t : UInt8} {rest : Bytes} (ht : Decimal.IsDigit t) :
    (parseWithin (levels + 1)).run (t :: rest) = parseBytes.run (t :: rest) := by
  have hne (c : Char) (hc : ¬ Decimal.IsDigit (ascii c)) : t ≠ ascii c := by
    rintro rfl
    exact hc ht
  have hdigit : ascii '0' ≤ t ∧ t ≤ ascii '9' := ht
  unfold Scanner.run
  rw [parseWithin]
  dsimp only
  rw [if_neg (hne 'i' (by decide)), if_neg (hne 'l' (by decide)), if_neg (hne 'd' (by decide)),
    if_pos hdigit]

theorem parseEntry_run {value : Scanner UInt8 Value} {input after rest : Bytes} {key : Bytes} {v : Value}
    (hkey : value.run input = some (.bytes key, after)) (hvalue : value.run after = some (v, rest)) :
    (parseEntry value).run input = some ((key, v, after.take (after.length - rest.length)), rest) := by
  obtain ⟨⟨k, after'⟩, hk, h⟩ := Option.map_eq_some_iff.mp hkey
  cases h
  obtain ⟨⟨v', rest'⟩, hv, h⟩ := Option.map_eq_some_iff.mp hvalue
  cases h
  unfold Scanner.run parseEntry
  rw [hk]
  dsimp only
  rw [hv]
  rfl

theorem encodeBytes_head (b : Bytes) : ∃ t tail, encodeBytes b = t :: tail ∧ Decimal.IsDigit t := by
  obtain ⟨t, tail, hw, ht⟩ := Decimal.writeNat_cons b.length
  exact ⟨t, tail ++ ascii ':' :: b, by rw [encodeBytes, hw, List.cons_append], ht⟩

theorem encode_head (v : Bencode) : ∃ t tail, v.encode = t :: tail ∧ t ≠ ascii 'e' := by
  cases v with
  | bytes b =>
    obtain ⟨t, tail, he, ht⟩ := encodeBytes_head b
    refine ⟨t, tail, he, ?_⟩
    rintro rfl
    exact absurd ht (by decide)
  | _ => exact ⟨_, _, rfl, by decide⟩

theorem parseWithin_bytes {levels : Nat} {b r : Bytes} (h : (encodeBytes b ++ r).length ≤ u64Max) :
    (parseWithin (levels + 1)).run (encodeBytes b ++ r) = some (.bytes b, r) := by
  rw [← parseBytes_encode b r h]
  obtain ⟨t, tail, he, ht⟩ := encodeBytes_head b
  rw [he, List.cons_append]
  exact parseWithin_digit ht

theorem parseWithin_encode (v : Bencode) (levels : Nat) (r : Bytes) (hdepth : v.depth < levels)
    (hsize : (v.encode ++ r).length ≤ u64Max) :
    (parseWithin levels).run (v.encode ++ r) = some (v.value, r) := by
  -- on the value; lists and dictionaries read their parts one level down
  induction v using Bencode.induct generalizing levels r with
  | integer n =>
    obtain ⟨levels, rfl⟩ := Nat.exists_eq_add_one_of_ne_zero (Nat.ne_zero_of_lt hdepth)
    exact (parseWithin_integer levels _).trans (parseInteger_encode n r)
  | bytes b =>
    obtain ⟨levels, rfl⟩ := Nat.exists_eq_add_one_of_ne_zero (Nat.ne_zero_of_lt hdepth)
    exact parseWithin_bytes hsize
  | list items ih =>
    obtain ⟨levels, rfl⟩ := Nat.exists_eq_add_one_of_ne_zero (Nat.ne_zero_of_lt hdepth)
    have hsplit : (Bencode.list items).encode ++ r = ascii 'l' ::
        (items.flatMap Bencode.encode ++ ascii 'e' :: r) := by
      simp [Bencode.encode, encodeItems_eq]
    rw [hsplit] at hsize ⊢
    have hitem : ∀ item ∈ items, ∀ r, (item.encode ++ r).length ≤ u64Max →
        (parseWithin levels).run (item.encode ++ r) = some (item.value, r) := by
      intro item hmem r hr
      exact ih item hmem levels r ((depth_item hmem).trans_le (Nat.le_of_lt_succ hdepth)) hr
    rw [parseWithin_list, many_written hitem (fun item _ => encode_head item)
      ((Nat.le_succ _).trans hsize), Option.map_some, Bencode.value, itemValues_eq]
  | dictionary entries ih =>
    obtain ⟨levels, rfl⟩ := Nat.exists_eq_add_one_of_ne_zero (Nat.ne_zero_of_lt hdepth)
    have hsplit : (Bencode.dictionary entries).encode ++ r =
        ascii 'd' :: (entries.flatMap (fun entry => encodeBytes entry.1 ++ entry.2.encode) ++
          ascii 'e' :: r) := by
      simp [Bencode.encode, encodeEntries_eq]
    rw [hsplit] at hsize ⊢
    have hentry : ∀ entry ∈ entries, ∀ r, (encodeBytes entry.1 ++ entry.2.encode ++ r).length ≤ u64Max →
        (parseEntry (parseWithin levels)).run (encodeBytes entry.1 ++ entry.2.encode ++ r) =
          some ((entry.1, entry.2.value, entry.2.encode), r) := by
      intro entry hmem r hr
      rw [List.append_assoc] at hr ⊢
      have hlt : entry.2.depth < levels := (depth_entry hmem).trans_le (Nat.le_of_lt_succ hdepth)
      obtain ⟨levels, rfl⟩ := Nat.exists_eq_add_one_of_ne_zero (Nat.ne_zero_of_lt hlt)
      have hrest : (entry.2.encode ++ r).length ≤ u64Max := by
        rw [List.length_append] at hr
        exact (Nat.le_add_left _ _).trans hr
      rw [parseEntry_run (parseWithin_bytes hr) (ih entry hmem _ r hlt hrest), List.length_append,
        Nat.add_sub_cancel,
        List.take_left]
    have hhead : ∀ entry ∈ entries, ∃ t tail,
        encodeBytes entry.1 ++ entry.2.encode = t :: tail ∧ t ≠ ascii 'e' := by
      intro entry _
      obtain ⟨t, tail, he, ht⟩ := encode_head (.bytes entry.1)
      exact ⟨t, tail ++ entry.2.encode, by rw [← List.cons_append, ← he]; rfl, ht⟩
    rw [parseWithin_dictionary, many_written hentry hhead ((Nat.le_succ _).trans hsize),
      Option.map_some, Bencode.value,
      entryValues_eq]

theorem parse_encode (v : Bencode) (r : Bytes) (hdepth : v.depth ≤ maxDepth)
    (hsize : (v.encode ++ r).length ≤ u64Max) :
    parse (v.encode ++ r) 0 = some (v.value, r) :=
  parseWithin_encode v (maxDepth + 1) r (Nat.lt_succ_of_le hdepth) hsize

/-! ## What a dictionary keeps -/

theorem take_cut {rest input : Bytes} (h : rest <:+ input) :
    input.take (input.length - rest.length) ++ rest = input := by
  obtain ⟨front, rfl⟩ := h
  simp

theorem parseEntry_kept {value : Scanner UInt8 Value} {input rest key encoded : Bytes} {v : Value}
    (h : (parseEntry value).run input = some ((key, v, encoded), rest)) :
    encoded ++ rest <:+ input ∧ value.run (encoded ++ rest) = some (v, rest) := by
  obtain ⟨⟨entry, rest'⟩, hentry, h⟩ := Option.map_eq_some_iff.mp h
  cases h
  unfold parseEntry at hentry
  split at hentry
  · next key' after hkey =>
    obtain ⟨⟨v', last⟩, hv, he⟩ := Option.map_eq_some_iff.mp hentry
    cases he
    have hrun : value.run after.1 = some (v, last.1) := by
      rw [Scanner.run, hv]
      rfl
    show after.1.take (after.1.length - last.1.length) ++ last.1 <:+ input ∧
      value.run (after.1.take (after.1.length - last.1.length) ++ last.1) = some (v, last.1)
    rw [take_cut last.2.1]
    exact ⟨after.2.1, hrun⟩
  · cases hentry

theorem dictionary_run {levels : Nat} {input rest : Bytes} {entries : List (Bytes × Value × Bytes)}
    (h : (parseWithin levels).run input = some (.dictionary entries, rest)) :
    ∃ levels' tail, levels = levels' + 1 ∧ tail <:+ input ∧
      Scanner.run (many (ascii 'e') (parseEntry (parseWithin levels'))) tail = some (entries, rest) := by
  cases levels with
  | zero => cases h
  | succ levels =>
    cases input with
    | nil => cases h
    | cons first tail =>
      refine ⟨levels, tail, rfl, List.suffix_cons first tail, ?_⟩
      obtain ⟨⟨v, rest'⟩, hv, h⟩ := Option.map_eq_some_iff.mp h
      cases h
      rw [parseWithin] at hv
      dsimp only at hv
      split at hv
      · obtain ⟨i, -, hn⟩ := Option.bind_eq_some_iff.mp hv
        obtain ⟨n, -, hn⟩ := Option.map_eq_some_iff.mp hn
        cases hn
      · split at hv
        · obtain ⟨items, -, hn⟩ := Option.map_eq_some_iff.mp hv
          cases hn
        · split at hv
          · obtain ⟨⟨read, later⟩, hmany, hn⟩ := Option.map_eq_some_iff.mp hv
            cases hn
            rw [Scanner.run, hmany]
            rfl
          · split at hv
            · obtain ⟨i, -, hn⟩ := Option.bind_eq_some_iff.mp hv
              obtain ⟨length, -, hn⟩ := Option.bind_eq_some_iff.mp hn
              dsimp only at hn
              split at hn <;> cases hn
            · cases hv

/-- Each value's bytes stand in the input, where the value is parsed from them. -/
theorem parse_kept {input rest : Bytes} {depth : Nat} {entries : List (Bytes × Value × Bytes)}
    (h : parse input depth = some (.dictionary entries, rest)) {key encoded : Bytes} {v : Value}
    (he : (key, v, encoded) ∈ entries) :
    ∃ before after, input = before ++ encoded ++ after ∧
    parse (encoded ++ after) (depth + 1) = some (v, after) := by
  obtain ⟨levels, tail, hlevels, htail, hmany⟩ := dictionary_run h
  obtain ⟨front, after, hfront, hentry⟩ := mem_many hmany he
  obtain ⟨hsuffix, hvalue⟩ := parseEntry_kept hentry
  obtain ⟨before, hbefore⟩ := (hsuffix.trans hfront).trans htail
  refine ⟨before, after, ?_, ?_⟩
  · rw [List.append_assoc]
    exact hbefore.symm
  · have hlevel : maxDepth + 1 - (depth + 1) = levels := by omega
    unfold parse
    rw [hlevel]
    exact hvalue

/-! ## Version 1 torrents -/

def Keyed (entries : List (Bytes × Bencode)) : Prop := (entries.map Prod.fst).Nodup

inductive FileLengths (info : List (Bytes × Bencode)) : List Nat → Prop
  | single (length : I64) (listed : (text "length", .integer length) ∈ info)
      (alone : text "files" ∉ info.map Prod.fst)
      (counted : 0 ≤ length.1) : FileLengths info [length.1.toNat]
  | multiple (files : List (List (Bytes × Bencode) × I64))
      (listed : (text "files", .list (files.map fun file => .dictionary file.1)) ∈ info)
      (alone : text "length" ∉ info.map Prod.fst) (keys : ∀ file ∈ files, Keyed file.1)
      (lengths : ∀ file ∈ files, (text "length", .integer file.2) ∈ file.1 ∧ 0 ≤ file.2.1) :
      FileLengths info (files.map fun file => file.2.1.toNat)

/-- A torrent file of version 1: its info dictionary and the lengths of its files. -/
structure Version1 (torrent info : List (Bytes × Bencode)) (lengths : List Nat) : Prop where
  depth : (Bencode.dictionary torrent).depth ≤ maxDepth
  keys : Keyed torrent
  named : (text "info", .dictionary info) ∈ torrent
  infoKeys : Keyed info
  lengths : FileLengths info lengths

theorem find_entry {entries : List (Bytes × Bencode)} (hk : Keyed entries) {key : Bytes} {v : Bencode}
    (h : (key, v) ∈ entries) :
    (entryValues entries).find? (fun (k, _, _) => k = key) = some (key, v.value, v.encode) := by
  induction entries with
  | nil => cases h
  | cons entry entries ih =>
    obtain ⟨hnot, hk⟩ := List.nodup_cons.mp hk
    obtain rfl | h := List.mem_cons.mp h
    · exact List.find?_cons_of_pos (decide_eq_true rfl)
    · have hne : entry.1 ≠ key := by
        intro he
        exact hnot (he ▸ List.mem_map_of_mem (f := Prod.fst) h)
      exact (List.find?_cons_of_neg (by simpa using hne)).trans (ih hk h)

theorem field_some {entries : List (Bytes × Bencode)} (hk : Keyed entries) {name : String} {v : Bencode}
    (h : (text name, v) ∈ entries) : field name (entryValues entries) = some v.value := by
  unfold field
  rw [find_entry hk h]
  rfl

theorem field_none {entries : List (Bytes × Bencode)} {name : String}
    (h : text name ∉ entries.map Prod.fst) :
    field name (entryValues entries) = none := by
  unfold field
  rw [Option.map_eq_none_iff, List.find?_eq_none, entryValues_eq]
  intro e he
  obtain ⟨entry, hentry, rfl⟩ := List.mem_map.mp he
  rw [decide_eq_true_iff]
  intro hname
  exact h (hname ▸ List.mem_map_of_mem hentry)

theorem toU64_counted {n : I64} (h : 0 ≤ n.1) : n.toU64 = some n.1.toNat := if_pos h

theorem fileLength_listed {file : List (Bytes × Bencode)} (hk : Keyed file) {length : I64}
    (h : (text "length", .integer length) ∈ file) (hn : 0 ≤ length.1) :
    fileLength (Bencode.dictionary file).value = some length.1.toNat := by
  rw [Bencode.value, fileLength]
  induction file with
  | nil => cases h
  | cons entry file ih =>
    obtain ⟨hnot, hrest⟩ := List.nodup_cons.mp hk
    rw [entryValues, List.findSome?_cons]
    obtain rfl | hmem := List.mem_cons.mp h
    · simp only [Bencode.value, if_true, toU64_counted hn]
    · have hne : entry.1 ≠ text "length" := by
        intro he
        exact hnot (he ▸ List.mem_map_of_mem (f := Prod.fst) hmem)
      obtain ⟨key, value⟩ := entry
      cases value with
      | integer n =>
        simp only [Bencode.value, if_neg hne]
        exact ih hrest hmem
      | _ =>
        simp only [Bencode.value]
        exact ih hrest hmem

theorem total_files {files : List (List (Bytes × Bencode) × I64)} (hk : ∀ file ∈ files, Keyed file.1)
    (hl : ∀ file ∈ files, (text "length", .integer file.2) ∈ file.1 ∧ 0 ≤ file.2.1) (total : Nat)
    (ht : total ≤ u64Max) :
    (files.map fun file => (Bencode.dictionary file.1).value).foldlM
        (fun total file => (fileLength file).bind fun length => checkedAdd total length) total =
      if total + (files.map fun file => file.2.1.toNat).sum ≤ u64Max then
        some (total + (files.map fun file => file.2.1.toNat).sum) else none := by
  induction files generalizing total with
  | nil => exact (if_pos ht).symm
  | cons file files ih =>
    obtain ⟨hlength, hcounted⟩ := hl file List.mem_cons_self
    rw [List.map_cons, List.foldlM_cons,
      fileLength_listed (hk file List.mem_cons_self) hlength hcounted, Option.bind_some,
      List.map_cons, List.sum_cons]
    unfold checkedAdd
    split
    · next hroom =>
      have hrest :=
        ih (fun f hf => hk f (List.mem_cons_of_mem file hf)) (fun f hf =>
          hl f (List.mem_cons_of_mem file hf))
        (total + file.2.1.toNat) hroom
      rw [Nat.add_assoc] at hrest
      exact hrest
    · next hfull =>
      refine (if_neg ?_).symm
      omega

theorem infoSize_version1 {info : List (Bytes × Bencode)} (hk : Keyed info) {lengths : List Nat}
    (h : FileLengths info lengths) :
    infoSize (entryValues info) = if lengths.sum ≤ u64Max then some lengths.sum else none := by
  unfold infoSize
  cases h with
  | single length listed alone counted =>
    rw [field_some hk listed, field_none alone]
    have hroom : length.1.toNat ≤ u64Max := by
      have hlt := length.2.2
      unfold u64Max
      omega
    simp only [Bencode.value, toU64_counted counted, List.sum_singleton, if_pos hroom]
  | multiple files listed alone keys lengths =>
    rw [field_none alone, field_some hk listed]
    have hvalues : itemValues (files.map fun file => Bencode.dictionary file.1) =
        files.map fun file => (Bencode.dictionary file.1).value := by
      rw [itemValues_eq, List.map_map]
      rfl
    simp only [Bencode.value, hvalues]
    have htotal := total_files keys lengths 0 (Nat.zero_le _)
    rw [Nat.zero_add] at htotal
    exact htotal

/-- A version 1 torrent file is named by the digest of its info dictionary's
encoding and has the size of all its files, or is refused where that overflows. -/
theorem read_version1 (sha1 : Bytes → Vector UInt8 20) {torrent info : List (Bytes × Bencode)}
    {lengths : List Nat}
    (h : Version1 torrent info lengths) (hsize : (Bencode.dictionary torrent).encode.length ≤ u64Max) :
    read sha1 (Bencode.dictionary torrent).encode =
      if lengths.sum ≤ u64Max then
        some { hash := hexHash (sha1 (Bencode.dictionary info).encode), size := lengths.sum }
      else none := by
  have hparse := parse_encode (.dictionary torrent) [] h.depth (by rwa [List.append_nil])
  rw [List.append_nil] at hparse
  unfold read
  rw [hparse]
  simp only [Bencode.value]
  rw [find_entry h.keys h.named, Option.bind_some]
  simp only [Bencode.value]
  rw [infoSize_version1 h.infoKeys h.lengths]
  split <;> rfl

/-- What names a file is the digest of an info dictionary that stands in it. -/
theorem read_named {sha1 : Bytes → Vector UInt8 20} {bytes : Bytes} {file : TorrentFile}
    (h : read sha1 bytes = some file) :
    ∃ before info after entries, bytes = before ++ info ++ after ∧
      parse (info ++ after) 1 = some (.dictionary entries, after) ∧ file.hash = hexHash (sha1 info) := by
  unfold read at h
  split at h
  · next entries hparse =>
    obtain ⟨⟨key, info, encoded⟩, hfind, h⟩ := Option.bind_eq_some_iff.mp h
    dsimp only at h
    split at h
    · next info =>
      obtain ⟨size, -, rfl⟩ := Option.map_eq_some_iff.mp h
      obtain ⟨before, after, hbytes, hinfo⟩ := parse_kept hparse (List.mem_of_find?_eq_some hfind)
      exact ⟨before, encoded, after, info, hbytes, hinfo, rfl⟩
    · cases h
  · cases h

/-- Values are parsed back from their encodings, with the encodings of what their
dictionaries hold; what a parse leaves is a shorter end of the input; and a
torrent file is named by its info dictionary as it stands in it, and sized by
its files. -/
theorem torrent_files_read (sha1 : Bytes → Vector UInt8 20) :
    (∀ (v : Bencode) (r : Bytes), v.depth ≤ maxDepth → (v.encode ++ r).length ≤ u64Max →
      parse (v.encode ++ r) 0 = some (v.value, r)) ∧
    (∀ input depth v rest, parse input depth = some (v, rest) →
      rest <:+ input ∧ rest.length < input.length) ∧
    (∀ torrent info lengths, Version1 torrent info lengths →
      (Bencode.dictionary torrent).encode.length ≤ u64Max →
      read sha1 (Bencode.dictionary torrent).encode =
        if lengths.sum ≤ u64Max then
          some { hash := hexHash (sha1 (Bencode.dictionary info).encode), size := lengths.sum }
        else none) ∧
    ∀ bytes file, read sha1 bytes = some file →
    ∃ before info after entries, bytes = before ++ info ++ after ∧
      parse (info ++ after) 1 = some (.dictionary entries, after) ∧ file.hash = hexHash (sha1 info) :=
  ⟨parse_encode, fun _ _ _ _ h => run_rest h, fun _ _ _ h hsize => read_version1 sha1 h hsize,
    fun _ _ h => read_named h⟩

def fiveBytes : List (Bytes × Bencode) := [(text "length", .integer ⟨5, by decide⟩)]

def fiveDigest : Vector UInt8 20 :=
  #v[255, 39, 173, 62, 30, 28, 66, 179, 228, 86, 69, 18, 10, 195, 124, 114, 17, 53, 21, 253]

theorem five_bytes_read : read (fun _ => fiveDigest) (text "d4:infod6:lengthi5eee") =
    some { hash := hexHash fiveDigest, size := 5 } := by
  have hlengths : FileLengths fiveBytes [5] :=
    .single ⟨5, by decide⟩ List.mem_cons_self (by decide) (by decide)
  have htorrent : Version1 [(text "info", .dictionary fiveBytes)] fiveBytes [5] :=
    ⟨by decide, List.nodup_singleton _, List.mem_cons_self, List.nodup_singleton _, hlengths⟩
  have hencode : (Bencode.dictionary [(text "info", .dictionary fiveBytes)]).encode =
      text "d4:infod6:lengthi5eee" := by
    decide
  have hread := (torrent_files_read fun _ => fiveDigest).2.2.1 _ _ _ htorrent (by rw [hencode]; decide)
  rw [hencode] at hread
  exact hread

end Windlass.TorrentFile
