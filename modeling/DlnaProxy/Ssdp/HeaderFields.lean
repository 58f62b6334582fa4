import DlnaProxy.Lib.Keyed
import DlnaProxy.Ssdp.Search

/-!
# The header map of a search

The map that `parse_ssdp` returns holds the last field of every name and nothing
else. The listener looks up one name in it, so two requests that have the same
fields of that name are answered alike.
-/
namespace DlnaProxy.Ssdp

open DlnaProxy.Lib DlnaProxy.Lib.Utf8

/-! ## The map -/

/-- A field's name as the map has it. -/
def Header.key (field : Header) : Str := toUppercase field.name

/-- The last field of a name, in any case. -/
def lastField (key : Str) (fields : List Header) : Option Header := Keyed.last Header.key key fields

/-- **The map holds the last field of each name.** -/
theorem headerMap_eq (fields : List Header) (key : Str) :
    headerMap fields key = (lastField key fields).map fun field => fromUtf8Lossy field.value := by
  induction fields using List.reverseRecOn with
  | nil => rfl
  | append_singleton fields field ih =>
    have hinsert : headerMap (fields ++ [field]) =
        (headerMap fields).insert field.key (fromUtf8Lossy field.value) := by
      rw [headerMap, List.foldl_append]
      rfl
    rw [hinsert, lastField, Keyed.last_append, Keyed.last_singleton, HeaderMap.insert]
    by_cases hkey : field.key = key
    · rw [if_pos hkey.symm, if_pos hkey, Option.some_or, Option.map_some]
    · rw [if_neg (Ne.symm hkey), if_neg hkey, Option.none_or, ih]
      rfl

/-- `headers` is the map of the fields of `request`, which is what the parser has
read in `buffer`. -/
structure MapsFields (parser : Httparse) (buffer : List UInt8) (method : Str) (headers : HeaderMap)
    (request : Request) : Prop where
  parsed : parser headerCapacity buffer = .ok request
  method_eq : request.method = some method
  fields_eq : ∀ (text : RequestText) (rest : List UInt8), buffer = text.bytes ++ rest →
    request.headers = text.lines.map FieldLine.header
  keys : ∀ key, (headers key).isSome ↔ ∃ field ∈ request.headers, field.key = key
  values : ∀ before field after, request.headers = before ++ field :: after →
    (∀ later ∈ after, later.key ≠ field.key) →
      headers field.key = some (fromUtf8Lossy field.value)

variable {parser : Httparse}

theorem method_of_ok {buffer : List UInt8} {method : Str} {headers : HeaderMap}
    (h : parseSsdp parser buffer = .ok method headers) {request : Request}
    (hparse : parser headerCapacity buffer = .ok request) : request.method = some method := by
  simp only [parseSsdp, hparse] at h
  split at h
  · cases h
  · next hmethod =>
    split at h
    · obtain ⟨rfl, _⟩ := Parsed.ok.inj h
      exact hmethod
    · cases h

theorem exists_mapsFields (hlawful : Lawful parser) {buffer : List UInt8} {method : Str}
    {headers : HeaderMap} (h : parseSsdp parser buffer = .ok method headers) :
    ∃ request, MapsFields parser buffer method headers request := by
  obtain ⟨request, hparse, rfl⟩ := headerMap_of_ok hlawful h
  refine ⟨request, hparse, method_of_ok h hparse, ?_, ?_, ?_⟩
  · rintro text rest rfl
    by_cases hroom : text.lines.length ≤ headerCapacity
    · rw [hlawful.complete text rest hroom] at hparse
      rw [← Except.ok.inj hparse]
    · rw [hlawful.tooMany text rest (by omega)] at hparse
      cases hparse
  · intro key
    rw [headerMap_eq, Option.isSome_map, lastField, Keyed.last_isSome_iff]
  · intro before field after hfields hlater
    rw [headerMap_eq, hfields, lastField, Keyed.last_of_split hlater, Option.map_some]

/-! ## Requests that ask the same -/

/-- The lists of fields that differ in the case of names, in the order of fields with
different names, and in fields other than ST. -/
inductive SameSearch : List Header → List Header → Prop
  | refl (fields : List Header) : SameSearch fields fields
  | symm {fields fields' : List Header} : SameSearch fields fields' → SameSearch fields' fields
  | trans {fields₁ fields₂ fields₃ : List Header} :
    SameSearch fields₁ fields₂ → SameSearch fields₂ fields₃ → SameSearch fields₁ fields₃
  | recase {before after : List Header} {name name' : Str} {value : List UInt8} :
    toUppercase name = toUppercase name' →
      SameSearch (before ++ ⟨name, value⟩ :: after) (before ++ ⟨name', value⟩ :: after)
  | swap {before after : List Header} {field field' : Header} : field.key ≠ field'.key →
    SameSearch (before ++ field :: field' :: after) (before ++ field' :: field :: after)
  | other {before after : List Header} {field : Header} : field.key ≠ "ST".toList →
    SameSearch (before ++ field :: after) (before ++ after)

/-- The value of the last ST field. -/
def searchTarget (fields : List Header) : Option (List UInt8) :=
  (lastField "ST".toList fields).map Header.value

theorem searchTarget_append (before after : List Header) :
    searchTarget (before ++ after) = (searchTarget after).or (searchTarget before) := by
  rw [searchTarget, lastField, Keyed.last_append, Option.map_or]
  rfl

theorem searchTarget_singleton (field : Header) :
    searchTarget [field] = if field.key = "ST".toList then some field.value else none := by
  rw [searchTarget, lastField, Keyed.last_singleton]
  split <;> rfl

theorem searchTarget_cons (field : Header) (after : List Header) : searchTarget (field :: after) =
    (searchTarget after).or (if field.key = "ST".toList then some field.value else none) := by
  rw [← searchTarget_singleton, ← searchTarget_append]
  rfl

theorem SameSearch.searchTarget_eq {fields fields' : List Header} (h : SameSearch fields fields') :
    searchTarget fields = searchTarget fields' := by
  induction h with
  | refl fields => rfl
  | symm _ ih => exact ih.symm
  | trans _ _ ih₁ ih₂ => exact ih₁.trans ih₂
  | @recase before after name name' value hname =>
    have hkey : Header.key ⟨name, value⟩ = Header.key ⟨name', value⟩ := hname
    rw [searchTarget_append, searchTarget_append, searchTarget_cons, searchTarget_cons, hkey]
  | @swap before after field field' hne =>
    rw [searchTarget_append, searchTarget_append, searchTarget_cons, searchTarget_cons,
      searchTarget_cons, searchTarget_cons]
    by_cases hfield : field.key = "ST".toList
    · have hfield' : field'.key ≠ "ST".toList := fun he => hne (hfield.trans he.symm)
      rw [if_neg hfield', Option.or_none, Option.or_none]
    · rw [if_neg hfield, Option.or_none, Option.or_none]
  | @other before after field hother =>
    rw [searchTarget_append, searchTarget_append, searchTarget_cons, if_neg hother, Option.or_none]

/-! ## The decision -/

/-- The target that is answered, if one is. -/
def Handling.answers : Handling → Option Str
  | .answered st _ => some st
  | _ => none

theorem listenPass_answers {datagram : Datagram} {method : Str} {headers : HeaderMap}
    (h : parseSsdp parser datagram.buffer = .ok method headers) :
    (listenPass parser (.datagram datagram)).answers =
      (headers "ST".toList).filter (shouldRespond method) := by
  simp only [listenPass, h]
  cases headers "ST".toList with
  | none => rfl
  | some st =>
    rw [Option.filter_some]
    show Handling.answers (if shouldRespond method st then _ else _) = _
    split <;> rfl

theorem headerMap_searchTarget (fields : List Header) :
    headerMap fields "ST".toList = (searchTarget fields).map fromUtf8Lossy := by
  rw [headerMap_eq, searchTarget, Option.map_map]
  rfl

/-- **The map is exact, and the answer depends on the method and the ST fields.** -/
theorem parseSsdp_exact (hlawful : Lawful parser) :
    (∀ {buffer : List UInt8} {method : Str} {headers : HeaderMap},
      parseSsdp parser buffer = .ok method headers →
        ∃ request, MapsFields parser buffer method headers request) ∧
    ∀ {datagram₁ datagram₂ : Datagram} {method : Str} {headers₁ headers₂ : HeaderMap}
      {request₁ request₂ : Request},
      parseSsdp parser datagram₁.buffer = .ok method headers₁ →
      parseSsdp parser datagram₂.buffer = .ok method headers₂ →
      parser headerCapacity datagram₁.buffer = .ok request₁ →
      parser headerCapacity datagram₂.buffer = .ok request₂ →
      SameSearch request₁.headers request₂.headers →
        (listenPass parser (.datagram datagram₁)).answers =
          (listenPass parser (.datagram datagram₂)).answers := by
  refine ⟨exists_mapsFields hlawful, ?_⟩
  intro datagram₁ datagram₂ method headers₁ headers₂ request₁ request₂ hok₁ hok₂ hparse₁ hparse₂ hsame
  have hmap {datagram : Datagram} {headers : HeaderMap} {request : Request}
      (hok : parseSsdp parser datagram.buffer = .ok method headers)
      (hparse : parser headerCapacity datagram.buffer = .ok request) :
      headers "ST".toList = (searchTarget request.headers).map fromUtf8Lossy := by
    obtain ⟨request', hparse', rfl⟩ := headerMap_of_ok hlawful hok
    rw [hparse] at hparse'
    rw [headerMap_searchTarget, Except.ok.inj hparse']
  rw [listenPass_answers hok₁, listenPass_answers hok₂, hmap hok₁ hparse₁, hmap hok₂ hparse₂,
    hsame.searchTarget_eq]

/-! ## Two searches for everything -/

theorem st_token : IsToken "ST".toList := by decide

theorem ssdpAll_clean : CleanValue (asBytes ssdpAll) := by decide

def stLine : FieldLine :=
  ⟨"ST".toList, [], asBytes ssdpAll, [], st_token, FieldLine.noBlanks, ssdpAll_clean,
    FieldLine.noBlanks⟩

def stLineQuiet : FieldLine :=
  ⟨"st".toList, [], asBytes ssdpAll, [], by decide, FieldLine.noBlanks, ssdpAll_clean,
    FieldLine.noBlanks⟩

def manLine : FieldLine :=
  ⟨"MAN".toList, [], asBytes "\"ssdp:discover\"".toList, [], by decide, FieldLine.noBlanks,
    by decide, FieldLine.noBlanks⟩

def mxLine : FieldLine :=
  ⟨"MX".toList, [], asBytes "3".toList, [], by decide, FieldLine.noBlanks, by decide,
    FieldLine.noBlanks⟩

def loudSearch : RequestText := ⟨mSearch, mSearch_token, [manLine, stLine]⟩

def quietSearch : RequestText := ⟨mSearch, mSearch_token, [stLineQuiet, mxLine]⟩

theorem loudSearch_same : SameSearch (loudSearch.lines.map FieldLine.header)
    (quietSearch.lines.map FieldLine.header) := by
  have hswap : SameSearch [manLine.header, stLine.header] [stLine.header, manLine.header] :=
    @SameSearch.swap [] [] manLine.header stLine.header (by decide)
  have hdrop : SameSearch [stLine.header, manLine.header] [stLine.header] :=
    @SameSearch.other [stLine.header] [] manLine.header (by decide)
  have hcase : SameSearch [stLine.header] [stLineQuiet.header] :=
    @SameSearch.recase [] [] stLine.name stLineQuiet.name stLine.value (by decide)
  have hadd : SameSearch [stLineQuiet.header, mxLine.header] [stLineQuiet.header] :=
    @SameSearch.other [stLineQuiet.header] [] mxLine.header (by decide)
  exact ((hswap.trans hdrop).trans hcase).trans hadd.symm

theorem parse_datagram {text : RequestText} (hroom : text.lines.length < headerCapacity)
    (hfits : text.bytes.length ≤ bufferSize) :
    reference headerCapacity (Datagram.buffer ⟨text.bytes, controlPoint⟩) =
      .ok ⟨some text.method, text.lines.map FieldLine.header⟩ ∧
    parseSsdp reference (Datagram.buffer ⟨text.bytes, controlPoint⟩) =
      .ok text.method (headerMap (text.lines.map FieldLine.header)) := by
  rw [buffer_of_fits hfits]
  exact ⟨lawful_reference.complete text _ (Nat.le_of_lt hroom),
    parseSsdp_text lawful_reference text _ hroom⟩

theorem parseSsdp_exact_searches :
    (∃ request, MapsFields reference (Datagram.buffer ⟨loudSearch.bytes, controlPoint⟩) mSearch
      (headerMap (loudSearch.lines.map FieldLine.header)) request) ∧
    (listenPass reference (.datagram ⟨loudSearch.bytes, controlPoint⟩)).answers =
      (listenPass reference (.datagram ⟨quietSearch.bytes, controlPoint⟩)).answers := by
  have hexact := @parseSsdp_exact reference lawful_reference
  obtain ⟨hparse₁, hok₁⟩ := parse_datagram (show loudSearch.lines.length < 16 by decide) (by decide)
  obtain ⟨hparse₂, hok₂⟩ := parse_datagram (show quietSearch.lines.length < 16 by decide) (by decide)
  exact ⟨hexact.1 hok₁, hexact.2 hok₁ hok₂ hparse₁ hparse₂ loudSearch_same⟩

end DlnaProxy.Ssdp
