import DlnaProxy.Ssdp.Search

/-!
# Packets and their reading

A packet is read back as it was meant when every value it carries can be delivered
by a request parser: no control character but the tab, and no blank at either end.
Any other value changes the headers of the packet.
-/
namespace DlnaProxy.Ssdp

open DlnaProxy.Lib.Utf8

/-! ## Values -/

def isBlankChar (c : Char) : Bool := c = ' ' || c = '\t'

/-- No control character of ASCII but the tab. -/
def isPlainChar (c : Char) : Bool := c = '\t' || (32 ≤ c.toNat && c.toNat ≠ 127)

/-- A text that can stand as the value of a header. -/
def Plain (value : Str) : Prop := (∀ c ∈ value, isPlainChar c) ∧ Trimmed isBlankChar value

instance (value : Str) : Decidable (Plain value) := instDecidableAnd

/-- The classes of characters and of bytes agree on ASCII. -/
theorem ascii_classes {c : Char} (h : Ascii c) :
    isPlainChar c = isValueByte c.toUInt8 ∧ isBlankChar c = isBlank c.toUInt8 := by
  have hall : ∀ n < 128, isPlainChar (charOf n) = isValueByte (charOf n).toUInt8 ∧
      isBlankChar (charOf n) = isBlank (charOf n).toUInt8 := by decide +kernel
  have hc := hall c.toNat h
  rwa [charOf_toNat] at hc

theorem ascii_of_blank {c : Char} (h : isBlankChar c = true) : Ascii c := by
  rw [isBlankChar, Bool.or_eq_true, decide_eq_true_iff, decide_eq_true_iff] at h
  rcases h with rfl | rfl <;> decide

theorem isPlainChar_wide {c : Char} (h : ¬ Ascii c) : isPlainChar c = true := by
  unfold Ascii at h
  rw [isPlainChar, Bool.or_eq_true, Bool.and_eq_true]
  exact Or.inr ⟨decide_eq_true (by omega), decide_eq_true (by omega)⟩

theorem wide_byte {b : UInt8} (h : 0x80 ≤ b) : isValueByte b = true ∧ isBlank b = false := by
  have h32 : 32 ≤ b := UInt8.le_trans (show (32 : UInt8) ≤ 0x80 by decide) h
  have h127 : b ≠ 127 := by
    rintro rfl
    exact absurd h (by decide)
  have hspace : b ≠ 32 := by
    rintro rfl
    exact absurd h (by decide)
  have htab : b ≠ 9 := by
    rintro rfl
    exact absurd h (by decide)
  simp [isValueByte, isBlank, h32, h127, hspace, htab]

/-- A byte of a character is that character, or above all of ASCII. -/
theorem mem_encodeChar {c : Char} {b : UInt8} (h : b ∈ String.utf8EncodeChar c) :
    (Ascii c ∧ b = c.toUInt8) ∨ 0x80 ≤ b := by
  by_cases hc : Ascii c
  · rw [encodeChar_ascii hc, List.mem_singleton] at h
    exact Or.inl ⟨hc, h⟩
  · exact Or.inr (encodeChar_wide hc b h)

theorem head_asBytes {s : Str} {b : UInt8} (h : b ∈ (asBytes s).head?) :
    ∃ c ∈ s.head?, b ∈ String.utf8EncodeChar c := by
  cases s with
  | nil => cases h
  | cons c s =>
    refine ⟨c, rfl, ?_⟩
    rw [asBytes_cons, List.head?_append_of_ne_nil _ (encodeChar_ne_nil c)] at h
    exact List.mem_of_mem_head? h

theorem getLast_asBytes {s : Str} {b : UInt8} (h : b ∈ (asBytes s).getLast?) :
    ∃ c ∈ s.getLast?, b ∈ String.utf8EncodeChar c := by
  rcases List.eq_nil_or_concat s with rfl | ⟨front, c, rfl⟩
  · cases h
  · have hc : asBytes [c] = String.utf8EncodeChar c := by simp [asBytes]
    rw [List.concat_eq_append] at h ⊢
    refine ⟨c, by simp, ?_⟩
    rw [asBytes_append, hc, List.getLast?_append_of_ne_nil _ (encodeChar_ne_nil c)] at h
    exact List.mem_of_getLast? h

theorem not_blank_byte {c : Char} (hc : isBlankChar c = false) {b : UInt8}
    (hb : b ∈ String.utf8EncodeChar c) : isBlank b = false := by
  rcases mem_encodeChar hb with ⟨ha, rfl⟩ | hwide
  · rw [← (ascii_classes ha).2]
    exact hc
  · exact (wide_byte hwide).2

theorem Plain.clean {value : Str} (h : Plain value) : CleanValue (asBytes value) := by
  obtain ⟨hplain, hhead, hlast⟩ := h
  refine ⟨?_, ?_, ?_⟩
  · intro b hb
    obtain ⟨c, hc, hb⟩ := List.mem_flatMap.mp hb
    rcases mem_encodeChar hb with ⟨ha, rfl⟩ | hwide
    · rw [← (ascii_classes ha).1]
      exact hplain c hc
    · exact (wide_byte hwide).1
  · intro b hb
    obtain ⟨c, hc, hb⟩ := head_asBytes hb
    exact not_blank_byte (hhead c hc) hb
  · intro b hb
    obtain ⟨c, hc, hb⟩ := getLast_asBytes hb
    exact not_blank_byte (hlast c hc) hb

/-- What is delivered as a value is plain once it is decoded. -/
theorem CleanValue.plain {value : List UInt8} (h : CleanValue value) :
    Plain (fromUtf8Lossy value) := by
  obtain ⟨hbytes, hhead, hlast⟩ := h
  refine ⟨?_, ?_, ?_⟩
  · intro c hc
    by_cases ha : Ascii c
    · rw [(ascii_classes ha).1]
      apply hbytes
      rw [← mem_lossy_iff (toUInt8_le ha), charOf_toUInt8 ha]
      exact hc
    · exact isPlainChar_wide ha
  · intro c hc
    by_contra hblank
    rw [Bool.not_eq_false] at hblank
    have ha := ascii_of_blank hblank
    obtain ⟨tail, htail⟩ := List.head?_eq_some_iff.mp hc
    have hpre : asBytes [c] <+: value := by
      rw [← prefix_lossy_iff (by simpa [AllAscii] using ha), htail]
      exact ⟨tail, rfl⟩
    have hc' : asBytes [c] = [c.toUInt8] := asBytes_ascii (by simpa [AllAscii] using ha)
    obtain ⟨rest, rfl⟩ := hpre
    rw [hc'] at hhead
    rw [(ascii_classes ha).2, hhead c.toUInt8 rfl] at hblank
    cases hblank
  · intro c hc
    by_contra hblank
    rw [Bool.not_eq_false] at hblank
    have ha := ascii_of_blank hblank
    obtain ⟨front, hfront⟩ := List.getLast?_eq_some_iff.mp hc
    rcases stripLast_cases c.toUInt8 value with hstrip | ⟨hstrip, _⟩
    · rw [(ascii_classes ha).2, hlast c.toUInt8 (by rw [hstrip]; simp)] at hblank
      cases hblank
    · have hlossy := stripLast_lossy ha value
      rw [← hstrip, hfront, stripLast_concat] at hlossy
      exact absurd (congrArg List.length hlossy) (by simp)

theorem plain_of_visible {s : Str} (h : ∀ c ∈ s, 32 < c.toNat ∧ c.toNat < 127) : Plain s := by
  have hblank : ∀ c ∈ s, isBlankChar c = false := by
    intro c hc
    obtain ⟨hlow, _⟩ := h c hc
    rw [isBlankChar, Bool.or_eq_false_iff, decide_eq_false_iff_not, decide_eq_false_iff_not]
    constructor
    · rintro rfl
      exact absurd hlow (by decide)
    · rintro rfl
      exact absurd hlow (by decide)
  refine ⟨?_, fun c hc => hblank c (List.mem_of_mem_head? hc),
    fun c hc => hblank c (List.mem_of_getLast? hc)⟩
  intro c hc
  obtain ⟨hlow, hhigh⟩ := h c hc
  rw [isPlainChar, Bool.or_eq_true, Bool.and_eq_true]
  exact Or.inr ⟨decide_eq_true (by omega), decide_eq_true (by omega)⟩

theorem plain_maxAge (n : Nat) : Plain ("max-age=".toList ++ decimal n) := by
  have hconst : ∀ c ∈ "max-age=".toList, 32 < c.toNat ∧ c.toNat < 127 := by decide
  apply plain_of_visible
  intro c hc
  rcases List.mem_append.mp hc with hc | hc
  · exact hconst c hc
  · have halpha := toDigits_alphaNum (show 1 < 10 by decide) (by decide) n c hc
    unfold AlphaNum at halpha
    omega

/-! ## Headers -/

/-- The headers a packet is meant to carry. -/
def headersOf (fields : List Field) : HeaderMap :=
  fields.foldl (fun map field => map.insert field.name field.value) .empty

theorem headersOf_mem {fields : List Field} (hdistinct : (fields.map Field.name).Nodup)
    {field : Field} (hmem : field ∈ fields) : headersOf fields field.name = some field.value := by
  induction fields using List.reverseRecOn with
  | nil => cases hmem
  | append_singleton fields last ih =>
    rw [List.map_append, List.nodup_append] at hdistinct
    obtain ⟨hfront, _, hlast⟩ := hdistinct
    rw [headersOf, List.foldl_append]
    show (if field.name = last.name then some last.value else headersOf fields field.name) = _
    rcases List.mem_append.mp hmem with hold | hnew
    · have hne : field.name ≠ last.name :=
        hlast _ (List.mem_map_of_mem hold) _ List.mem_cons_self
      rw [if_neg hne, ih hfront hold]
    · obtain rfl := List.mem_singleton.mp hnew
      exact if_pos rfl

/-- A value in the map comes from a header. -/
theorem mem_of_headerMap {headers : List Header} {name value : Str}
    (h : headerMap headers name = some value) :
    ∃ header ∈ headers, fromUtf8Lossy header.value = value := by
  induction headers using List.reverseRecOn with
  | nil => cases h
  | append_singleton headers last ih =>
    rw [headerMap, List.foldl_append] at h
    change (if name = toUppercase last.name then some (fromUtf8Lossy last.value)
      else headerMap headers name) = some value at h
    split at h
    · exact ⟨last, by simp, Option.some.inj h⟩
    · obtain ⟨header, hmem, hvalue⟩ := ih h
      exact ⟨header, List.mem_append_left _ hmem, hvalue⟩

/-- A name that is read back as it stands, with a blank or nothing before the value. -/
def Field.Standard (field : Field) : Prop :=
  IsToken field.name ∧ toUppercase field.name = field.name ∧ (∀ b ∈ asBytes field.pad, isBlank b)

instance (field : Field) : Decidable field.Standard := instDecidableAnd

/-- Header lines with plain values are well-formed. -/
theorem exists_fieldLines {fields : List Field} (hstandard : ∀ field ∈ fields, field.Standard)
    (hplain : ∀ field ∈ fields, Plain field.value) : ∃ lines : List FieldLine,
      lines.flatMap FieldLine.bytes = asBytes (fields.flatMap Field.text) ∧
      lines.map FieldLine.header = fields.map fun field => ⟨field.name, asBytes field.value⟩ := by
  induction fields with
  | nil => exact ⟨[], rfl, rfl⟩
  | cons field fields ih =>
    obtain ⟨lines, hbytes, hheaders⟩ := ih
      (fun field hmem => hstandard field (List.mem_cons_of_mem _ hmem))
      (fun field hmem => hplain field (List.mem_cons_of_mem _ hmem))
    obtain ⟨htoken, _, hpad⟩ := hstandard field List.mem_cons_self
    have hclean := (hplain field List.mem_cons_self).clean
    let line : FieldLine :=
      ⟨field.name, asBytes field.pad, asBytes field.value, [], htoken, hpad, hclean,
        FieldLine.noBlanks⟩
    refine ⟨line :: lines, ?_, ?_⟩
    · have hcolon : asBytes ":".toList = [58] := by decide
      have hend : asBytes "\r\n".toList = lineEnd := by decide
      rw [List.flatMap_cons, List.flatMap_cons, hbytes, asBytes_append]
      simp only [Field.text, asBytes_append, hcolon, hend]
      simp [line, FieldLine.bytes, FieldLine.content]
    · rw [List.map_cons, List.map_cons, hheaders]
      rfl

theorem headerMap_fields {fields : List Field} (hstandard : ∀ field ∈ fields, field.Standard) :
    headerMap (fields.map fun field => ⟨field.name, asBytes field.value⟩) = headersOf fields := by
  rw [headerMap, List.foldl_map, headersOf]
  apply List.foldl_ext
  intro map field hmem
  rw [(hstandard field hmem).2.1, fromUtf8Lossy_asBytes]

/-! ## Notifications -/

def notify : Str := "NOTIFY".toList

variable {parser : Httparse} {now : Str} {packet : SSDPPacket}

/-- A notification with plain values is a well-formed request. -/
theorem exists_requestText (hstart : packet.startLine = notify ++ target)
    (hstandard : ∀ field ∈ packet.fields now, field.Standard)
    (hplain : ∀ field ∈ packet.fields now, Plain field.value) : ∃ text : RequestText,
      text.bytes = asBytes (packet.display now) ∧ text.method = notify ∧
      text.lines.map FieldLine.header =
        (packet.fields now).map fun field => ⟨field.name, asBytes field.value⟩ := by
  obtain ⟨lines, hbytes, hheaders⟩ := exists_fieldLines hstandard hplain
  have hend : asBytes "\r\n".toList = lineEnd := by decide
  refine ⟨⟨notify, by decide, lines⟩, ?_, rfl, hheaders⟩
  rw [SSDPPacket.display_eq, hstart]
  simp only [asBytes_append, ← hbytes, hend]
  rfl

/-- A notification is read as its headers exactly when their values are plain. -/
theorem parseSsdp_fields_iff (hlawful : Lawful parser)
    (hstart : packet.startLine = notify ++ target)
    (hstandard : ∀ field ∈ packet.fields now, field.Standard)
    (hdistinct : ((packet.fields now).map Field.name).Nodup)
    (hroom : (packet.fields now).length < headerCapacity) :
    parseSsdp parser (asBytes (packet.display now)) =
        .ok notify (headersOf (packet.fields now)) ↔
      ∀ field ∈ packet.fields now, Plain field.value := by
  constructor
  · intro hparse field hmem
    obtain ⟨request, hrequest, hheaders⟩ := headerMap_of_ok hlawful hparse
    have hvalue := headersOf_mem hdistinct hmem
    rw [hheaders] at hvalue
    obtain ⟨header, hheader, hlossy⟩ := mem_of_headerMap hvalue
    rw [← hlossy]
    exact (hlawful.clean hrequest header hheader).plain
  · intro hplain
    obtain ⟨text, hbytes, hmethod, hheaders⟩ := exists_requestText hstart hstandard hplain
    have hlength : text.lines.length = (packet.fields now).length := by
      rw [← List.length_map FieldLine.header, hheaders, List.length_map]
    rw [← List.append_nil (asBytes _), ← hbytes, parseSsdp_text hlawful text [] (hlength ▸ hroom),
      hmethod, hheaders, headerMap_fields hstandard]

/-- The names of the headers of an announcement, with what stands before the values. -/
def aliveShape : List (Str × Str) :=
  [("HOST".toList, []), ("CACHE-CONTROL".toList, []), ("LOCATION".toList, []),
    ("SERVER".toList, [' ']), ("NT".toList, []), ("USN".toList, []), ("NTS".toList, [])]

def byebyeShape : List (Str × Str) :=
  [("HOST".toList, []), ("NT".toList, []), ("USN".toList, []), ("NTS".toList, [])]

theorem standard_of_shape {fields : List Field} {shape : List (Str × Str)}
    (hshape : fields.map (fun field => (field.name, field.pad)) = shape)
    (hall : ∀ entry ∈ shape, Field.Standard ⟨entry.1, entry.2, []⟩) :
    ∀ field ∈ fields, field.Standard := by
  intro field hmem
  exact hall (field.name, field.pad) (hshape ▸ List.mem_map_of_mem hmem)

theorem distinct_of_shape {fields : List Field} {shape : List (Str × Str)}
    (hshape : fields.map (fun field => (field.name, field.pad)) = shape)
    (hdistinct : (shape.map Prod.fst).Nodup) : (fields.map Field.name).Nodup := by
  rw [← hshape, List.map_map] at hdistinct
  exact hdistinct

theorem startLine_notify : "NOTIFY * HTTP/1.1".toList = notify ++ target := by decide

variable (helper : InteractiveSSDP) (info : EndpointInfo)

theorem parseSsdp_alive_iff (hlawful : Lawful parser) (now : Str) :
    parseSsdp parser (asBytes ((helper.alive info).display now)) =
        .ok notify (headersOf ((helper.alive info).fields now)) ↔
      Plain helper.remoteDescUrl ∧ Plain info.server ∧ Plain info.deviceType ∧
        Plain (usn info.uniqueDeviceName info.deviceType) := by
  have hshape : ((helper.alive info).fields now).map (fun field => (field.name, field.pad)) =
      aliveShape := rfl
  have hstart : (helper.alive info).startLine = notify ++ target := startLine_notify
  rw [parseSsdp_fields_iff hlawful hstart (standard_of_shape hshape (by decide))
    (distinct_of_shape hshape (by decide)) (show 7 < 16 by decide)]
  have hhost : Plain "239.255.255.250:1900".toList := by decide
  have hnts : Plain "ssdp:alive".toList := by decide
  simp only [InteractiveSSDP.alive, SSDPPacket.fields, List.forall_mem_cons, hhost, hnts,
    plain_maxAge, true_and, List.not_mem_nil, false_implies, implies_true, and_true]

theorem parseSsdp_byebye_iff (hlawful : Lawful parser) (now : Str) :
    parseSsdp parser (asBytes ((helper.byebye info).display now)) =
        .ok notify (headersOf ((helper.byebye info).fields now)) ↔
      Plain info.deviceType ∧ Plain (usn info.uniqueDeviceName info.deviceType) := by
  have hshape : ((helper.byebye info).fields now).map (fun field => (field.name, field.pad)) =
      byebyeShape := rfl
  have hstart : (helper.byebye info).startLine = notify ++ target := startLine_notify
  rw [parseSsdp_fields_iff hlawful hstart (standard_of_shape hshape (by decide))
    (distinct_of_shape hshape (by decide)) (show 4 < 16 by decide)]
  have hhost : Plain "239.255.255.250:1900".toList := by decide
  have hnts : Plain "ssdp:byebye".toList := by decide
  simp only [InteractiveSSDP.byebye, SSDPPacket.fields, List.forall_mem_cons, hhost, hnts,
    true_and, List.not_mem_nil, false_implies, implies_true, and_true]

/-- **Notifications are read back as they were meant exactly when their fields are
plain**: a field that is not adds, removes or changes headers. -/
theorem parseSsdp_notify_iff (hlawful : Lawful parser) (now : Str) :
    (parseSsdp parser (asBytes ((helper.alive info).display now)) =
        .ok notify (headersOf ((helper.alive info).fields now)) ↔
      Plain helper.remoteDescUrl ∧ Plain info.server ∧ Plain info.deviceType ∧
        Plain (usn info.uniqueDeviceName info.deviceType)) ∧
    (parseSsdp parser (asBytes ((helper.byebye info).display now)) =
        .ok notify (headersOf ((helper.byebye info).fields now)) ↔
      Plain info.deviceType ∧ Plain (usn info.uniqueDeviceName info.deviceType)) :=
  ⟨parseSsdp_alive_iff helper info hlawful now, parseSsdp_byebye_iff helper info hlawful now⟩

/-! ## A device type with a line break -/

/-- A description whose device type brings a header of its own. -/
def injecting : EndpointInfo where
  deviceType := "urn:x\r\nLOCATION:http://192.168.1.66/".toList
  uniqueDeviceName := "uuid:minimal-device".toList
  server := "DLNAProxy/1.0".toList

theorem parseSsdp_injecting : Lawful reference ∧ ∀ parser, Lawful parser → ∀ now,
    parseSsdp parser (asBytes ((sampleHelper.alive injecting).display now)) ≠
      .ok notify (headersOf ((sampleHelper.alive injecting).fields now)) := by
  refine ⟨lawful_reference, ?_⟩
  intro parser hlawful now hparse
  have hplain := ((parseSsdp_alive_iff sampleHelper injecting hlawful now).mp hparse).2.2.1
  exact absurd hplain (by decide)

theorem plain_mediaRenderer : Plain sampleHelper.remoteDescUrl ∧ Plain mediaRenderer.server ∧
    Plain mediaRenderer.deviceType ∧
    Plain (usn mediaRenderer.uniqueDeviceName mediaRenderer.deviceType) := by decide

/-- The packets of this description are not read back, and those of a renderer are. -/
theorem parseSsdp_notify_iff_injecting :
    ((parseSsdp reference (asBytes ((sampleHelper.alive injecting).display [])) =
        .ok notify (headersOf ((sampleHelper.alive injecting).fields [])) ↔
      Plain sampleHelper.remoteDescUrl ∧ Plain injecting.server ∧ Plain injecting.deviceType ∧
        Plain (usn injecting.uniqueDeviceName injecting.deviceType)) ∧
    (parseSsdp reference (asBytes ((sampleHelper.byebye injecting).display [])) =
        .ok notify (headersOf ((sampleHelper.byebye injecting).fields [])) ↔
      Plain injecting.deviceType ∧ Plain (usn injecting.uniqueDeviceName injecting.deviceType))) ∧
    parseSsdp reference (asBytes ((sampleHelper.alive mediaRenderer).display [])) =
      .ok notify (headersOf ((sampleHelper.alive mediaRenderer).fields [])) ∧
    parseSsdp reference (asBytes ((sampleHelper.byebye mediaRenderer).display [])) =
      .ok notify (headersOf ((sampleHelper.byebye mediaRenderer).fields [])) := by
  have hread := parseSsdp_notify_iff sampleHelper mediaRenderer lawful_reference []
  refine ⟨parseSsdp_notify_iff sampleHelper injecting lawful_reference [],
    hread.1.mpr plain_mediaRenderer, hread.2.mpr plain_mediaRenderer.2.2⟩

end DlnaProxy.Ssdp
