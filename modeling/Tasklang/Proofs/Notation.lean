import Tasklang.Proofs.Numerals

/-! # The notation of structured values

What is printed reads back: a text with all its characters, an integer that fits, and a sequence or
mapping around values that do. A double reads back when its own digits do, whatever follows them.
-/

namespace Tasklang

/-! ## Binding a name -/

namespace Bindings

variable {bindings : Bindings} {name : String}

theorem insert_cons (name : String) (j : Json) (e : String × Json) (rest : Bindings) :
    insert name j (e :: rest) =
      if e.1 = name then (e.1, j) :: rest else e :: insert name j rest := rfl

theorem names_insert (bindings : Bindings) (name : String) (j : Json) :
    (bindings.insert name j).names =
      if name ∈ bindings.names then bindings.names else bindings.names ++ [name] := by
  induction bindings with
  | nil => rfl
  | cons e rest ih =>
    rw [insert_cons]
    by_cases here : e.1 = name
    · simp [names, here]
    · by_cases known : name ∈ names rest
      · simp_all [names]
      · simp_all [names, Ne.symm here]

theorem insert_new {j : Json} (new : name ∉ bindings.names) :
    bindings.insert name j = bindings ++ [(name, j)] := by
  induction bindings with
  | nil => rfl
  | cons e rest ih =>
    simp only [names, List.map_cons, List.mem_cons, not_or] at new
    rw [insert_cons, if_neg (Ne.symm new.1), ih new.2, List.cons_append]

theorem insert_unique (unique : bindings.names.Nodup) (j : Json) :
    (bindings.insert name j).names.Nodup := by
  rw [names_insert]
  split
  · exact unique
  · next new =>
    exact List.nodup_append.2 ⟨unique, by simp, fun a ha b hb same =>
      new (List.mem_singleton.1 hb ▸ same ▸ ha)⟩

/-- What stands for the names after one is bound is the new value or what stood there. -/
theorem mem_insert {j : Json} {e : String × Json} (there : e ∈ bindings.insert name j) :
    e.2 = j ∨ e ∈ bindings := by
  induction bindings with
  | nil => exact .inl (by rw [List.mem_singleton.1 there])
  | cons e' rest ih =>
    rw [insert_cons] at there
    split at there
    · rcases List.mem_cons.1 there with rfl | there
      · exact .inl rfl
      · exact .inr (.tail _ there)
    · rcases List.mem_cons.1 there with rfl | there
      · exact .inr (.head _)
      · exact (ih there).imp_right (.tail _)

end Bindings

namespace Json

/-! ## Texts -/

theorem readHex4_append {cs : List Char} (four : cs.length = 4) (rest : List Char) :
    readHex4 (cs ++ rest) = (readHex4 cs).map fun (n, left) => (n, left ++ rest) := by
  match cs, four with
  | [a, b, c, d], _ =>
    simp only [List.cons_append, List.nil_append, readHex4]
    split <;> rfl

theorem readUnicode_hex4 {n : Nat} (low : n < 0x20) (rest : List Char) :
    readUnicode (hex4 n ++ rest) = some (Char.ofNat n, rest) := by
  have four : ∀ n < 0x20, (hex4 n).length = 4 ∧ readHex4 (hex4 n) = some (n, []) := by decide
  obtain ⟨four, code⟩ := four n low
  have plain : ¬(0xD800 ≤ n ∧ n < 0xDC00) := by omega
  have plain' : ¬(0xDC00 ≤ n ∧ n < 0xE000) := by omega
  rw [readUnicode, readHex4_append four, code]
  simp only [Option.map_some, List.nil_append, if_neg plain, if_neg plain']

/-- A printed character is read in one step. -/
theorem readText_printChar (n : Nat) (acc rest : List Char) (c : Char) :
    readText (n + 1) acc (printChar c ++ rest) = readText n (c :: acc) rest := by
  unfold printChar
  split
  · next is_ => subst is_; rfl
  split
  · next is_ => subst is_; rfl
  split
  · next is_ => subst is_; rfl
  split
  · next is_ => subst is_; rfl
  split
  · next is_ => subst is_; rfl
  split
  · next code =>
    obtain rfl : c = '\x08' := Char.ext (UInt32.toNat_inj.1 code)
    rfl
  split
  · next code =>
    obtain rfl : c = '\x0c' := Char.ext (UInt32.toNat_inj.1 code)
    rfl
  split
  · next low =>
    have read := readUnicode_hex4 low rest
    rw [Char.ofNat_toNat] at read
    have here (cs : List Char) : readText (n + 1) acc ('\\' :: 'u' :: cs) =
        (readUnicode cs).bind fun read => readText n (read.1 :: acc) read.2 := by
      rw [readText]
      cases readUnicode cs <;> rfl
    rw [List.cons_append, List.cons_append, here, read]
    rfl
  · next quote backslash _ _ _ _ _ high =>
    rw [List.singleton_append, readText.eq_def]
    simp only [if_neg quote, if_neg backslash, if_neg high]

theorem readText_printed (s : String) (rest : List Char) :
    readText ((s.toList.flatMap printChar ++ '"' :: rest).length + 1) []
      (s.toList.flatMap printChar ++ '"' :: rest) = some (s, rest) := by
  have filled (c : Char) : 0 < (printChar c).length := by
    unfold printChar
    repeat' split
    all_goals simp
  suffices general : ∀ (cs acc : List Char) n, (cs.flatMap printChar).length < n →
      readText n acc (cs.flatMap printChar ++ '"' :: rest) =
        some (String.ofList (acc.reverse ++ cs), rest) by
    simpa using general s.toList [] ((s.toList.flatMap printChar ++ '"' :: rest).length + 1)
      (by rw [List.length_append]; omega)
  intro cs
  induction cs with
  | nil =>
    intro acc n enough
    obtain ⟨n, rfl⟩ : ∃ k, n = k + 1 := ⟨n - 1, by omega⟩
    simp [readText]
  | cons c cs ih =>
    intro acc n enough
    rw [List.flatMap_cons, List.length_append] at enough
    have := filled c
    obtain ⟨n, rfl⟩ : ∃ k, n = k + 1 := ⟨n - 1, by omega⟩
    rw [List.flatMap_cons, List.append_assoc, readText_printChar, ih _ n (by omega)]
    simp

mutual

/-- How many sequences and mappings stand around the innermost value. -/
def height : Json → Nat
  | .arr items => heightItems items + 1
  | .obj entries => heightEntries entries + 1
  | _ => 0

def heightItems : List Json → Nat
  | [] => 0
  | v :: vs => max (height v) (heightItems vs)

def heightEntries : List (String × Json) → Nat
  | [] => 0
  | e :: es => max (height e.2) (heightEntries es)

end

mutual

/-- Whether a value and all values inside have a property. -/
def Every (p : Json → Prop) : Json → Prop
  | .arr items => p (.arr items) ∧ EveryItem p items
  | .obj entries => p (.obj entries) ∧ EveryEntry p entries
  | v => p v

def EveryItem (p : Json → Prop) : List Json → Prop
  | [] => True
  | v :: vs => Every p v ∧ EveryItem p vs

def EveryEntry (p : Json → Prop) : List (String × Json) → Prop
  | [] => True
  | e :: es => Every p e.2 ∧ EveryEntry p es

end

section Every

variable {p q r : Json → Prop}

mutual

/-- A value of which all parts have two properties has what follows from them in all parts. -/
theorem Every.combine (follows : ∀ v, p v → q v → r v) {v : Json} (h : v.Every p) (h' : v.Every q) :
    v.Every r := by
  cases v with
  | arr items => exact ⟨follows _ h.1 h'.1, everyItem_combine follows h.2 h'.2⟩
  | obj entries => exact ⟨follows _ h.1 h'.1, everyEntry_combine follows h.2 h'.2⟩
  | _ => exact follows _ h h'

theorem everyItem_combine (follows : ∀ v, p v → q v → r v) {items : List Json}
    (h : EveryItem p items) (h' : EveryItem q items) : EveryItem r items := by
  cases items with
  | nil => trivial
  | cons v vs => exact ⟨h.1.combine follows h'.1, everyItem_combine follows h.2 h'.2⟩

theorem everyEntry_combine (follows : ∀ v, p v → q v → r v) {entries : List (String × Json)}
    (h : EveryEntry p entries) (h' : EveryEntry q entries) : EveryEntry r entries := by
  cases entries with
  | nil => trivial
  | cons e es => exact ⟨h.1.combine follows h'.1, everyEntry_combine follows h.2 h'.2⟩

end

end Every

/-- Whether a number reads back, and a mapping has no key twice. -/
def Readable : Json → Prop
  | .int n => leastInt ≤ n ∧ n ≤ greatestInt
  | .float x => readNumber (printFloat x) = some (.float x, [])
  | .obj entries => (entries.map (·.1)).Nodup
  | _ => True

theorem skipBlanks_cons {c : Char} {cs : List Char}
    (solid : (c == ' ' || c == '\n' || c == '\t' || c == '\r') = false) :
    skipBlanks (c :: cs) = c :: cs := by
  rw [skipBlanks, List.dropWhile_cons_of_neg (by simp [solid])]

theorem StartsNumber.solid {c : Char} (h : StartsNumber c) :
    (c == ' ' || c == '\n' || c == '\t' || c == '\r') = false := by
  simp [h.apart (d := ' ') (by decide) rfl, h.apart (d := '\n') (by decide) rfl,
    h.apart (d := '\t') (by decide) rfl, h.apart (d := '\r') (by decide) rfl]

theorem readValue_number {n depth : Nat} {c : Char} {cs : List Char} (starts : StartsNumber c) :
    readValue (n + 1) depth (c :: cs) = readNumber (c :: cs) := by
  have apart {d : Char} {ds : List Char} (is_ : c :: cs = d :: ds) (minus : d ≠ '-')
      (digit : d.isDigit = false) : False :=
    starts.apart minus digit (List.cons.inj is_).1
  rw [readValue, skipBlanks_cons starts.solid]
  split
  · next is_ => exact (apart is_ (by decide) rfl).elim
  · next is_ => exact (apart is_ (by decide) rfl).elim
  · next is_ => exact (apart is_ (by decide) rfl).elim
  · next is_ => exact (apart is_ (by decide) rfl).elim
  · next is_ => exact (apart is_ (by decide) rfl).elim
  · next is_ => exact (apart is_ (by decide) rfl).elim
  · rfl

/-- Whether a character starts a value: it is no blank and closes nothing. -/
structure StartsValue (c : Char) : Prop where
  solid : (c == ' ' || c == '\n' || c == '\t' || c == '\r') = false
  open_ : c ≠ ']'

theorem StartsNumber.value {c : Char} (h : StartsNumber c) : StartsValue c :=
  ⟨h.solid, h.apart (by decide) rfl⟩

theorem printChars_starts {v : Json} (readable : v.Every Readable) :
    ∃ c cs, printChars v = c :: cs ∧ StartsValue c := by
  cases v with
  | null => exact ⟨'n', _, rfl, rfl, by decide⟩
  | bool b => cases b <;> exact ⟨_, _, rfl, rfl, by decide⟩
  | int n =>
    obtain ⟨c, cs, first, starts⟩ := integerChars_starts n
    exact ⟨c, cs, first, starts.value⟩
  | float x =>
    have back : readNumber (printFloat x) = some (.float x, []) := readable
    obtain ⟨c, cs, first, starts⟩ := readNumber_starts back
    exact ⟨c, cs, first, starts.value⟩
  | str s => exact ⟨'"', _, rfl, rfl, by decide⟩
  | arr items => exact ⟨'[', _, rfl, rfl, by decide⟩
  | obj entries => exact ⟨'\x7b', _, rfl, rfl, by decide⟩

theorem printItems_cons (v : Json) (vs : List Json) : printItems (v :: vs) =
    printChars v ++ (if vs = [] then [] else ',' :: printItems vs) := by
  cases vs with
  | nil => simp [printItems]
  | cons w vs => simp [printItems]

theorem printEntries_cons (e : String × Json) (es : List (String × Json)) : printEntries (e :: es) =
    printText e.1 ++ ':' :: printChars e.2 ++ (if es = [] then [] else ',' :: printEntries es) := by
  cases es with
  | nil => simp [printEntries]
  | cons f es => simp [printEntries]

theorem printItems_starts {items : List Json} (readable : EveryItem Readable items)
    (some_ : items ≠ []) : ∃ c cs, printItems items = c :: cs ∧ StartsValue c := by
  cases items with
  | nil => exact absurd rfl some_
  | cons v vs =>
    obtain ⟨c, cs, first, starts⟩ := printChars_starts readable.1
    exact ⟨c, _, by rw [printItems_cons, first, List.cons_append], starts⟩

theorem readValue_items {items : List Json} {n depth : Nat} {rest : List Char}
    (readable : EveryItem Readable items) (some_ : items ≠ []) (low : 1 < depth) :
    readValue (n + 1) depth ('[' :: (printItems items ++ ']' :: rest)) =
      (readItems n (depth - 1) [] (printItems items ++ ']' :: rest)).map
        fun (vs, cs) => (.arr vs, cs) := by
  obtain ⟨c, cs, first, starts⟩ := printItems_starts readable some_
  rw [readValue, skipBlanks_cons rfl]
  simp only [if_neg (Nat.not_le.2 low), first, List.cons_append, skipBlanks_cons starts.solid]
  split
  · next is_ => exact absurd (List.cons.inj is_).1 starts.open_
  · rfl

theorem readValue_entries {entries : List (String × Json)} {n depth : Nat} {rest : List Char}
    (some_ : entries ≠ []) (low : 1 < depth) :
    readValue (n + 1) depth ('\x7b' :: (printEntries entries ++ '\x7d' :: rest)) =
      (readEntries n (depth - 1) [] (printEntries entries ++ '\x7d' :: rest)).map
        fun (es, cs) => (.obj es, cs) := by
  obtain ⟨e, es, rfl⟩ := List.exists_cons_of_ne_nil some_
  rw [readValue, skipBlanks_cons rfl, printEntries_cons, printText]
  simp only [if_neg (Nat.not_le.2 low), List.cons_append]
  rw [skipBlanks_cons rfl]
  rfl

mutual

/-- A printed value is read, whatever may follow it. -/
theorem readValue_printChars {v : Json} {rest : List Char} {n depth : Nat}
    (readable : v.Every Readable) (low : v.height < depth)
    (stops : Stops rest) (enough : 2 * (printChars v).length ≤ n) :
    readValue n depth (printChars v ++ rest) = some (v, rest) := by
  obtain ⟨n, rfl⟩ : ∃ k, n = k + 1 := by
    obtain ⟨c, cs, first, -⟩ := printChars_starts readable
    rw [first, List.length_cons] at enough
    exact ⟨n - 1, by omega⟩
  cases v with
  | null => rfl
  | bool b => cases b <;> rfl
  | int k =>
    obtain ⟨c, cs, first, starts⟩ := integerChars_starts k
    have read := stops.readNumber (Number.integerChars k)
    rw [readNumber_integerChars readable.1 readable.2, first] at read
    rw [printChars, first]
    exact (readValue_number starts).trans read
  | float x =>
    have back : readNumber (printFloat x) = some (.float x, []) := readable
    obtain ⟨c, cs, first, starts⟩ := readNumber_starts back
    have read := stops.readNumber (printFloat x)
    rw [back, first] at read
    rw [printChars, first]
    exact (readValue_number starts).trans read
  | str s =>
    have text : printChars (.str s) ++ rest =
        '"' :: (s.toList.flatMap printChar ++ '"' :: rest) := by
      simp [printChars, printText]
    rw [text, readValue, skipBlanks_cons rfl]
    exact congrArg (Option.map fun (s, cs) => (Json.str s, cs))
      (readText_printed s rest)
  | arr items =>
    have text : printChars (.arr items) ++ rest = '[' :: (printItems items ++ ']' :: rest) := by
      simp [printChars]
    rw [height] at low
    rw [text]
    by_cases empty : items = []
    · subst empty
      exact if_neg (by omega)
    · simp only [printChars, List.length_append, List.length_cons, List.length_nil] at enough
      rw [readValue_items readable.2 empty (by omega),
        readItems_printItems readable.2 (by omega) empty [] (by omega)]
      rfl
  | obj entries =>
    have text : printChars (.obj entries) ++ rest =
        '\x7b' :: (printEntries entries ++ '\x7d' :: rest) := by
      simp [printChars]
    rw [height] at low
    rw [text]
    by_cases empty : entries = []
    · subst empty
      exact if_neg (by omega)
    · simp only [printChars, List.length_append, List.length_cons, List.length_nil] at enough
      rw [readValue_entries empty (by omega),
        readEntries_printEntries readable.2 (by omega) empty [] readable.1 (by omega)]
      rfl

theorem readItems_printItems {items : List Json} {rest : List Char} {n depth : Nat}
    (readable : EveryItem Readable items) (low : heightItems items < depth) (some_ : items ≠ [])
    (acc : List Json) (enough : 2 * (printItems items).length < n) :
    readItems n depth acc (printItems items ++ ']' :: rest) =
      some (acc.reverse ++ items, rest) := by
  obtain ⟨n, rfl⟩ : ∃ k, n = k + 1 := ⟨n - 1, by omega⟩
  cases items with
  | nil => exact absurd rfl some_
  | cons v vs =>
    rw [heightItems] at low
    rw [printItems_cons, List.length_append] at enough
    rw [printItems_cons, List.append_assoc, readItems]
    by_cases last : vs = []
    · subst last
      rw [if_pos rfl, List.nil_append,
        readValue_printChars readable.1 (by omega) (by simp [Stops]) (by omega)]
      simp only [skipBlanks_cons (c := ']') rfl, List.reverse_cons]
    · rw [if_neg last, List.length_cons] at enough
      rw [if_neg last, List.cons_append,
        readValue_printChars readable.1 (by omega) (by simp [Stops]) (by omega)]
      simp only [skipBlanks_cons (c := ',') rfl]
      rw [readItems_printItems readable.2 (by omega) last _ (by omega)]
      simp

theorem readEntries_printEntries {entries : List (String × Json)} {rest : List Char}
    {n depth : Nat}
    (readable : EveryEntry Readable entries) (low : heightEntries entries < depth)
    (some_ : entries ≠ []) (acc : Bindings) (unique : (acc.names ++ entries.map (·.1)).Nodup)
    (enough : 2 * (printEntries entries).length < n) :
    readEntries n depth acc (printEntries entries ++ '\x7d' :: rest) =
      some (acc ++ entries, rest) := by
  obtain ⟨n, rfl⟩ : ∃ k, n = k + 1 := ⟨n - 1, by omega⟩
  obtain ⟨e, es, rfl⟩ := List.exists_cons_of_ne_nil some_
  obtain ⟨k, v⟩ := e
  have new : k ∉ acc.names := fun there =>
    (List.nodup_append.1 unique).2.2 _ there _ (.head _) rfl
  have text (more : List Char) : printText k ++ ':' :: more =
      '"' :: (k.toList.flatMap printChar ++ '"' :: ':' :: more) := by
    simp [printText]
  have low : max v.height (heightEntries es) < depth := low
  rw [printEntries_cons] at enough ⊢
  simp only [List.length_append, List.length_cons] at enough
  rw [List.append_assoc, List.append_assoc, List.cons_append, text, readEntries,
    skipBlanks_cons rfl]
  simp only [readText_printed, skipBlanks_cons (c := ':') rfl]
  by_cases last : es = []
  · subst last
    rw [if_pos rfl, List.nil_append,
      readValue_printChars (v := v) readable.1 (by omega) (by simp [Stops]) (by omega)]
    simp only [skipBlanks_cons (c := '\x7d') rfl, Bindings.insert_new new]
  · rw [if_neg last, List.length_cons] at enough
    rw [if_neg last, List.cons_append,
      readValue_printChars (v := v) readable.1 (by omega) (by simp [Stops]) (by omega)]
    simp only [skipBlanks_cons (c := ',') rfl]
    rw [readEntries_printEntries readable.2 (by omega) last _ _ (by omega), Bindings.insert_new new]
    · simp
    · rw [Bindings.insert_new new]
      simpa [Bindings.names] using unique

end

/-- A value with numbers that read back, no key twice and not too many levels reads back. -/
theorem parse?_print {v : Json} (readable : v.Every Readable) (low : v.height < 128) :
    parse? v.print = some v := by
  have read := readValue_printChars (n := 2 * (printChars v).length + 2) readable low
    (show Stops [] from nofun) (by omega)
  rw [List.append_nil] at read
  simp only [parse?, print, String.toList_ofList, read]
  rfl

/-! ## What is read -/

/-- Whether a value has no key twice in a mapping. -/
def Keyed : Json → Prop
  | .obj entries => (entries.map (·.1)).Nodup
  | _ => True

/-- Whether a value has fewer levels than a bound, and no key twice. -/
structure Sound (depth : Nat) (v : Json) : Prop where
  low : v.height < depth
  keyed : v.Every Keyed

theorem Sound.of_number {depth : Nat} {v : Json} (positive : 0 < depth) (h : IsNumber v) :
    Sound depth v := by
  cases h with
  | int n => exact ⟨positive, trivial⟩
  | float x => exact ⟨positive, trivial⟩

theorem Sound.arr {depth : Nat} {items : List Json} (deep : 1 < depth)
    (sound : ∀ v ∈ items, Sound (depth - 1) v) : Sound depth (.arr items) := by
  have all : heightItems items < depth - 1 ∧ EveryItem Keyed items := by
    induction items with
    | nil => exact ⟨by rw [heightItems]; omega, trivial⟩
    | cons v vs ih =>
      obtain ⟨first, others⟩ := List.forall_mem_cons.1 sound
      obtain ⟨low, keyed⟩ := ih others
      exact ⟨Nat.max_lt.2 ⟨first.low, low⟩, first.keyed, keyed⟩
  refine ⟨?_, trivial, all.2⟩
  rw [height]
  omega

theorem Sound.obj {depth : Nat} {entries : List (String × Json)} (deep : 1 < depth)
    (unique : (entries.map (·.1)).Nodup) (sound : ∀ e ∈ entries, Sound (depth - 1) e.2) :
    Sound depth (.obj entries) := by
  have all : heightEntries entries < depth - 1 ∧ EveryEntry Keyed entries := by
    clear unique
    induction entries with
    | nil => exact ⟨by rw [heightEntries]; omega, trivial⟩
    | cons e es ih =>
      obtain ⟨first, others⟩ := List.forall_mem_cons.1 sound
      obtain ⟨low, keyed⟩ := ih others
      exact ⟨Nat.max_lt.2 ⟨first.low, low⟩, first.keyed, keyed⟩
  refine ⟨?_, unique, all.2⟩
  rw [height]
  omega

/-- What is read has no more levels than there is room for, and no key twice. The induction is on
the fuel, for all three readers at once. -/
theorem read_sound (n : Nat) :
    (∀ {depth cs v rest}, 0 < depth → readValue n depth cs = some (v, rest) → Sound depth v) ∧
    (∀ {depth acc cs vs rest}, 0 < depth → (∀ v ∈ acc, Sound depth v) →
      readItems n depth acc cs = some (vs, rest) → ∀ v ∈ vs, Sound depth v) ∧
    ∀ {depth acc cs es rest}, 0 < depth → acc.names.Nodup → (∀ e ∈ acc, Sound depth e.2) →
      readEntries n depth acc cs = some (es, rest) →
      es.names.Nodup ∧ ∀ e ∈ es, Sound depth e.2 := by
  induction n with
  | zero => exact ⟨nofun, nofun, nofun⟩
  | succ n ih =>
    obtain ⟨value, items, entries⟩ := ih
    refine ⟨fun {depth cs v rest} positive h => ?_,
      fun {depth acc cs vs rest} positive sound h => ?_,
      fun {depth acc cs es rest} positive unique sound h => ?_⟩
    · rw [readValue] at h
      split at h
      · cases h
        exact ⟨positive, trivial⟩
      · cases h
        exact ⟨positive, trivial⟩
      · cases h
        exact ⟨positive, trivial⟩
      · obtain ⟨⟨s, left⟩, -, same⟩ := Option.map_eq_some_iff.1 h
        cases same
        exact ⟨positive, trivial⟩
      · split at h
        · cases h
        next deep =>
        split at h
        · cases h
          exact .arr (by omega) (List.forall_mem_nil _)
        · obtain ⟨⟨vs, left⟩, read, same⟩ := Option.map_eq_some_iff.1 h
          cases same
          exact .arr (by omega) (items (by omega) (List.forall_mem_nil _) read)
      · split at h
        · cases h
        next deep =>
        split at h
        · cases h
          exact .obj (by omega) List.nodup_nil (List.forall_mem_nil _)
        · obtain ⟨⟨es, left⟩, read, same⟩ := Option.map_eq_some_iff.1 h
          cases same
          have new : Bindings.names [] |>.Nodup := List.nodup_nil
          obtain ⟨unique, sound⟩ := entries (by omega) new (List.forall_mem_nil _) read
          exact .obj (by omega) unique sound
      · exact .of_number positive (.of_readNumber h)
    · rw [readItems] at h
      split at h
      · cases h
      next v left read =>
      have more := List.forall_mem_cons.2 ⟨value positive read, sound⟩
      split at h
      · exact items positive more h
      · cases h
        exact fun w there => more w (List.mem_reverse.1 there)
      · cases h
    · rw [readEntries] at h
      split at h
      · split at h
        · cases h
        next k left text =>
        split at h
        · split at h
          · cases h
          next v left read =>
          have unique' : (acc.insert k v).names.Nodup := Bindings.insert_unique unique v
          have sound' : ∀ e ∈ acc.insert k v, Sound depth e.2 := fun e there =>
            (Bindings.mem_insert there).elim (fun same => same ▸ value positive read) (sound e)
          split at h
          · exact entries positive unique' sound' h
          · cases h
            exact ⟨unique', sound'⟩
          · cases h
        · cases h
      · cases h

theorem parse?_sound {text : String} {v : Json} (h : parse? text = some v) : Sound 128 v := by
  unfold parse? at h
  dsimp only at h
  split at h
  · next read =>
    split at h
    · cases h
      exact (read_sound _).1 (by decide) read
    · cases h
  · cases h

end Json

end Tasklang
