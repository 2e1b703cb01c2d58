import ProcessEngine.Snapshot.Restore

/-!
# The characters of a snapshot

The text of a snapshot is put together from many small texts.  `Json.chars`
gives its characters as one list, so that reading it back can be worked out.

Main statement: `parse?_text_of_readsBack`, a test on a snapshot without
variables and events by which reading its text gives it back.
-/

namespace ProcessEngine

namespace Json

/-- The characters of a JSON string. -/
def stringChars (s : String) : List Char :=
  '"' :: (s.toList.flatMap fun c => (jsonChar c).toList) ++ ['"']

mutual

/-- The characters of a value without spaces. -/
def chars : Json → List Char
  | null => ['n', 'u', 'l', 'l']
  | bool true => ['t', 'r', 'u', 'e']
  | bool false => ['f', 'a', 'l', 's', 'e']
  | number n => n.text.toList
  | string s => stringChars s
  | array xs => '[' :: charsList xs ++ [']']
  | object fields => '\x7b' :: charsFields fields ++ ['\x7d']

/-- The characters of items between commas. -/
def charsList : List Json → List Char
  | [] => []
  | [x] => x.chars
  | x :: xs => x.chars ++ ',' :: charsList xs

/-- The characters of fields between commas. -/
def charsFields : List (String × Json) → List Char
  | [] => []
  | [(k, x)] => stringChars k ++ ':' :: x.chars
  | (k, x) :: xs => stringChars k ++ ':' :: x.chars ++ ',' :: charsFields xs

end

theorem toList_foldl_append (f : Char → String) (cs : List Char) (out : String) :
    (cs.foldl (fun out c => out ++ f c) out).toList =
      out.toList ++ cs.flatMap fun c => (f c).toList := by
  induction cs generalizing out with
  | nil => simp
  | cons c cs ih => simp [ih]

theorem toList_jsonString (s : String) : (jsonString s).toList = stringChars s := by
  simp [jsonString, stringChars, toList_foldl_append]

mutual

theorem toList_compress : (value : Json) → value.compress.toList = value.chars
  | null => by simp [compress, chars]
  | bool true => by simp [compress, chars]
  | bool false => by simp [compress, chars]
  | number n => rfl
  | string s => toList_jsonString s
  | array xs => by simp [compress, chars, toList_compressList xs]
  | object fields => by simp [compress, chars, toList_compressFields fields]

theorem toList_compressList : (xs : List Json) → (compressList xs).toList = charsList xs
  | [] => rfl
  | [x] => toList_compress x
  | x :: y :: xs => by
    simp [compressList, charsList, toList_compress x, toList_compressList (y :: xs)]

theorem toList_compressFields :
    (fields : List (String × Json)) → (compressFields fields).toList = charsFields fields
  | [] => rfl
  | [(k, x)] => by
    simp [compressFields, charsFields, toList_jsonString, toList_compress x]
  | (k, x) :: field :: fields => by
    simp [compressFields, charsFields, toList_jsonString, toList_compress x,
      toList_compressFields (field :: fields)]

end

/-- The one value of some characters as it is written. -/
def Written.ofChars? (cs : List Char) : Option Written :=
  match readValue (cs.length + 1) (cs.length + 1) (skipLayout cs) with
  | some (value, rest) => if (skipLayout rest).isEmpty then some value else none
  | none => none

end Json

/-- What a stored instance without variables and events holds. -/
def StoredInstance.plain? (i : StoredInstance) :
    Option (Int × Int × Instant × InstanceState × List StoredActivity) :=
  if i.vars.isEmpty && i.caught.isEmpty then
    some (i.key, i.definitionKey, i.createdAt, i.state, i.activities)
  else none

theorem StoredInstance.eq_of_plain? {i j : StoredInstance} (hplain : i.plain?.isSome = true)
    (h : i.plain? = j.plain?) : i = j := by
  unfold plain? at hplain h
  split at h
  · rename_i hi
    split at h
    · rename_i hj
      obtain ⟨key, definitionKey, createdAt, state, vars, caught, activities⟩ := i
      obtain ⟨key', definitionKey', createdAt', state', vars', caught', activities'⟩ := j
      simp_all
    · cases h
  · rename_i hi
    rw [if_neg hi] at hplain
    cases hplain

namespace Snapshot

/-- Whether two snapshots without variables and events are the same. -/
def agrees (s t : Snapshot) : Bool :=
  s.version == t.version && s.name == t.name && s.definitions == t.definitions &&
    s.instances.map StoredInstance.plain? == t.instances.map StoredInstance.plain? &&
    s.instances.all fun i => i.plain?.isSome

theorem eq_of_agrees {s t : Snapshot} (h : s.agrees t = true) : s = t := by
  obtain ⟨version, name, definitions, instances⟩ := s
  obtain ⟨version', name', definitions', instances'⟩ := t
  simp only [agrees, Bool.and_eq_true, beq_iff_eq, List.all_eq_true] at h
  obtain ⟨⟨⟨⟨rfl, rfl⟩, rfl⟩, hmap⟩, hplain⟩ := h
  have hinstances : instances = instances' := by
    refine List.ext_getElem? fun n => ?_
    have hn := congrArg (fun plains => plains[n]?) hmap
    simp only [List.getElem?_map] at hn
    cases hi : instances[n]? with
    | none =>
        rw [hi] at hn
        exact (Option.map_eq_none_iff.mp hn.symm).symm
    | some i =>
        rw [hi] at hn
        obtain ⟨j, hj, hsame⟩ := Option.map_eq_some_iff.mp hn.symm
        rw [hj, StoredInstance.eq_of_plain? (hplain i (List.mem_of_getElem? hi)) hsame.symm]
  rw [hinstances]

/-- The snapshot that some characters give. -/
def ofChars? (cs : List Char) : Option Snapshot :=
  ((Json.Written.ofChars? cs).bind (·.settle? shape Json.nestingLimit)).bind ofJson?

theorem parse?_text (s : Snapshot) : parse? s.text = ofChars? s.toJson.chars := by
  rw [← Json.toList_compress]
  rfl

/-- Whether a snapshot without variables and events is read back from its
characters. -/
def readsBack (s : Snapshot) : Bool := (ofChars? s.toJson.chars).any fun t => t.agrees s

theorem parse?_text_of_readsBack {s : Snapshot} (h : s.readsBack = true) :
    parse? s.text = some s := by
  obtain ⟨t, ht, hagrees⟩ := (Option.any_eq_true _ _).mp h
  rw [parse?_text, ht, eq_of_agrees hagrees]

end Snapshot

end ProcessEngine
