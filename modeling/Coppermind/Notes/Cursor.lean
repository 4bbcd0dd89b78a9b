import Coppermind.Lib.Base64
import Coppermind.Lib.Json

/-!
# The cursor of a listing

`_encode_note_cursor` and `_decode_note_cursor`: the identifier of the last note of a page and the
context of its filter, as a JSON object in base64 without padding.
-/

namespace Coppermind.Notes

open Coppermind.Lib

/-- What a listing raises. -/
inductive ListError where
  | validationFailed (errors : List PyStr)
  | filterCursorConflict
  | fieldIndexNotReady (jobId : PyStr)
  | metadataUnavailable
  | notesFilesystemUnavailable
deriving DecidableEq

/-- What reading a cursor asks of the language. -/
structure CursorHost where
  /-- The text of bytes that are not all ASCII without NUL, as `json.loads` decodes them. -/
  decode : List UInt8 → Option PyStr
  /-- `float(literal) == i`. -/
  floatIs : PyStr → Int → Bool

/-- Bytes that are their own text. -/
def asciiText? (data : List UInt8) : Option PyStr :=
  if data.all fun b => b ≠ 0 && b < 128 then some (data.map UInt8.toNat) else none

/-- `str.encode` of an ASCII text. -/
def encodeAscii (text : PyStr) : List UInt8 := text.map Nat.toUInt8

def contextJson : Option PyStr → Json
  | none => .null
  | some context => .str context

/-- `{"v": 3 if context else 2, "id": note_id, "context": context}`. -/
def cursorPayload (noteId : PyStr) (context : Option PyStr) : List (PyStr × Json) :=
  [(PyStr.lit "v", .int (if context.any (· ≠ []) then 3 else 2)), (PyStr.lit "id", .str noteId),
    (PyStr.lit "context", contextJson context)]

/-- `_encode_note_cursor`. -/
def encodeNoteCursor (noteId : PyStr) (context : Option PyStr) : Text :=
  (Base64.encode (encodeAscii (Json.dumps (.obj (cursorPayload noteId context))))).rdropWhile
    (· == Base64.pad)

section Decode

variable (host : CursorHost)

/-- `json.loads` of bytes. -/
def loadsBytes (data : List UInt8) : Option Json :=
  ((asciiText? data).or (host.decode data)).bind Json.loads

/-- `payload.get("v") in (2, 3)`. -/
def isVersion : Option Json → Bool
  | some (.int i) => i == 2 || i == 3
  | some (.float literal) => host.floatIs literal 2 || host.floatIs literal 3
  | _ => false

/-- `payload.get("context") == context`. -/
def sameContext (found : Option Json) (context : Option PyStr) : Bool :=
  match found, context with
  | none, none => true
  | some .null, none => true
  | some (.str found), some context => found == context
  | _, _ => false

/-- `_decode_note_cursor`. -/
def decodeNoteCursor (cursor : Text) (context : Option PyStr) : Except ListError PyStr :=
  let invalid := .error (.validationFailed [PyStr.lit "cursor: invalid or expired"])
  match (Base64.decode (Base64.padded cursor)).bind (loadsBytes host) with
  | some (.obj payload) =>
    if isVersion host (Json.get? payload (PyStr.lit "v")) then
      match Json.get? payload (PyStr.lit "id") with
      | some (.str noteId) =>
        if sameContext (Json.get? payload (PyStr.lit "context")) context then .ok noteId
        else .error .filterCursorConflict
      | _ => invalid
    else invalid
  | _ => invalid

end Decode

section RoundTrip

theorem ascii_hexDigit {n : Nat} (h : n < 16) : 0 < Json.hexDigit n ∧ Json.hexDigit n < 128 := by
  have hall : ∀ n < 16, 0 < Json.hexDigit n ∧ Json.hexDigit n < 128 := by decide
  exact hall n h

/-- Code points of ASCII, NUL apart. -/
def Ascii (text : PyStr) : Prop := ∀ c ∈ text, 0 < c ∧ c < 128

theorem Ascii.append {s t : PyStr} (hs : Ascii s) (ht : Ascii t) : Ascii (s ++ t) := by
  intro c hc
  obtain hc | hc := List.mem_append.1 hc
  · exact hs c hc
  · exact ht c hc

theorem Ascii.cons {c : Nat} {t : PyStr} (hc : 0 < c ∧ c < 128) (ht : Ascii t) :
    Ascii (c :: t) := by
  intro d hd
  obtain rfl | hd := List.mem_cons.1 hd
  · exact hc
  · exact ht d hd

theorem Ascii.nil : Ascii [] := by
  intro c hc
  cases hc

theorem ascii_unicodeEscape {unit : Nat} (h : unit < 0x10000) :
    Ascii (Json.unicodeEscape unit) := by
  unfold Json.unicodeEscape
  apply Ascii.cons (by decide)
  apply Ascii.cons (by decide)
  apply Ascii.cons (ascii_hexDigit (by omega))
  apply Ascii.cons (ascii_hexDigit (by omega))
  apply Ascii.cons (ascii_hexDigit (by omega))
  apply Ascii.cons (ascii_hexDigit (by omega))
  exact Ascii.nil

theorem ascii_writeChar {c : Nat} (h : Json.Scalar c) : Ascii (Json.writeChar c) := by
  have hlt := h.2
  unfold Json.writeChar
  split_ifs with hquote hback hplain hn hr ht hf hb hbmp
  · unfold Ascii
    decide
  · unfold Ascii
    decide
  · exact Ascii.cons (by omega) Ascii.nil
  · unfold Ascii
    decide
  · unfold Ascii
    decide
  · unfold Ascii
    decide
  · unfold Ascii
    decide
  · unfold Ascii
    decide
  · exact ascii_unicodeEscape hbmp
  · exact (ascii_unicodeEscape (by omega)).append (ascii_unicodeEscape (by omega))

theorem ascii_writeString {s : PyStr} (h : ∀ c ∈ s, Json.Scalar c) :
    Ascii (Json.writeString s) := by
  unfold Json.writeString
  apply Ascii.cons (by decide)
  apply Ascii.append
  · intro d hd
    obtain ⟨c, hc, hd⟩ := List.mem_flatMap.1 hd
    exact ascii_writeChar (h c hc) d hd
  · unfold Ascii
    decide

/-- The text of an identifier or a context: scalar values only. -/
def Scalars (s : PyStr) : Prop := ∀ c ∈ s, Json.Scalar c

theorem scalars_lit {s : PyStr} (h : s.all fun c => 0x20 ≤ c && c < 0x7f) : Scalars s := by
  intro c hc
  have hrange := List.all_eq_true.1 h c hc
  simp only [Bool.and_eq_true, decide_eq_true_eq] at hrange
  simp only [Json.Scalar, PyStr.isSurrogate, Bool.and_eq_false_iff, decide_eq_false_iff_not]
  omega

variable {noteId : PyStr} {context : Option PyStr}

theorem flat_contextJson (h : ∀ s ∈ context, Scalars s) : Json.Flat (contextJson context) := by
  cases context with
  | none => exact .null
  | some s => exact .str s (h s rfl)

theorem ascii_payload (hid : Scalars noteId) (hcontext : ∀ s ∈ context, Scalars s) :
    Ascii (Json.dumps (.obj (cursorPayload noteId context))) := by
  have hvalue : Ascii (Json.dumps (contextJson context)) := by
    cases context with
    | none =>
      unfold Ascii
      decide
    | some s => exact ascii_writeString (hcontext s rfl)
  have hversion : Ascii (Json.dumps (.int (if context.any (· ≠ []) then 3 else 2))) := by
    unfold Ascii
    split <;> decide
  have hkey : ∀ s : PyStr, (s.all fun c => 0x20 ≤ c && c < 0x7f) = true →
      Ascii (Json.writeString s) := fun s h => ascii_writeString (scalars_lit h)
  rw [cursorPayload, Json.dumps]
  apply Ascii.cons (by decide)
  apply Ascii.append
  · simp only [Json.dumpMembers, Json.dumpMember, Json.writeMember, Json.commas]
    apply Ascii.append
    · exact (hkey _ (by decide)).append (Ascii.cons (by decide) hversion)
    · apply Ascii.cons (by decide)
      apply Ascii.append
      · exact (hkey _ (by decide)).append (Ascii.cons (by decide) (ascii_writeString hid))
      · apply Ascii.cons (by decide)
        exact (hkey _ (by decide)).append (Ascii.cons (by decide) hvalue)
  · unfold Ascii
    decide

theorem asciiText_encodeAscii {text : PyStr} (h : Ascii text) :
    asciiText? (encodeAscii text) = some text := by
  have hback : ∀ n, n < 128 → (Nat.toUInt8 n).toNat = n := by
    intro n hn
    rw [Nat.toUInt8, UInt8.toNat_ofNat']
    omega
  have hall : (encodeAscii text).all (fun b => b ≠ 0 && b < 128) = true := by
    rw [List.all_eq_true]
    intro b hb
    obtain ⟨n, hn, rfl⟩ := List.mem_map.1 hb
    obtain ⟨hpos, hlt⟩ := h n hn
    have hn := hback n hlt
    simp only [Bool.and_eq_true, decide_eq_true_eq, ne_eq]
    refine ⟨fun h0 => ?_, UInt8.lt_iff_toNat_lt.2 (hn.trans_lt hlt)⟩
    rw [h0] at hn
    exact absurd hn.symm (Nat.ne_of_gt hpos)
  rw [asciiText?, if_pos hall]
  congr 1
  rw [encodeAscii, List.map_map]
  refine (List.map_congr_left fun n hn => ?_).trans (List.map_id text)
  exact hback n (h n hn).2

/-- The payload of a cursor is read back. -/
theorem loads_payload (host : CursorHost) (hid : Scalars noteId)
    (hcontext : ∀ s ∈ context, Scalars s) :
    (Base64.decode (Base64.padded (encodeNoteCursor noteId context))).bind (loadsBytes host) =
      some (.obj (cursorPayload noteId context)) := by
  have hkeys : ∀ member ∈ cursorPayload noteId context, Scalars member.1 := by
    intro member hmember
    simp only [cursorPayload, List.mem_cons, List.not_mem_nil, or_false] at hmember
    obtain rfl | rfl | rfl := hmember
    · exact @scalars_lit (PyStr.lit "v") (by decide)
    · exact @scalars_lit (PyStr.lit "id") (by decide)
    · exact @scalars_lit (PyStr.lit "context") (by decide)
  have hvalues : ∀ member ∈ cursorPayload noteId context, Json.Flat member.2 := by
    intro member hmember
    simp only [cursorPayload, List.mem_cons, List.not_mem_nil, or_false] at hmember
    obtain rfl | rfl | rfl := hmember
    · split
      · exact .digit 3 (by decide) (by decide)
      · exact .digit 2 (by decide) (by decide)
    · exact .str noteId hid
    · exact flat_contextJson hcontext
  have hne : cursorPayload noteId context ≠ [] := List.cons_ne_nil _ _
  rw [encodeNoteCursor, Base64.decode_padded_rstrip, Option.bind_some, loadsBytes,
    asciiText_encodeAscii (ascii_payload hid hcontext), Option.some_or, Option.bind_some,
    Json.loads_dumps hne hkeys hvalues]

theorem sameContext_contextJson (other : Option PyStr) :
    sameContext (some (contextJson context)) other = true ↔ context = other := by
  cases context <;> cases other <;> simp [contextJson, sameContext]

/-- **A cursor** decodes to the identifier it was made of under its own context, and is refused
under any other. -/
theorem decode_encodeNoteCursor (host : CursorHost) (hid : Scalars noteId)
    (hcontext : ∀ s ∈ context, Scalars s) (other : Option PyStr) :
    decodeNoteCursor host (encodeNoteCursor noteId context) other =
      if context = other then .ok noteId else .error .filterCursorConflict := by
  have hversion : isVersion host (Json.get? (cursorPayload noteId context) (PyStr.lit "v")) =
      true := by
    have hget : Json.get? (cursorPayload noteId context) (PyStr.lit "v") =
      some (.int (if context.any (· ≠ []) then 3 else 2)) := rfl
    rw [hget]
    split <;> rfl
  have hgetId : Json.get? (cursorPayload noteId context) (PyStr.lit "id") = some (.str noteId) :=
    rfl
  have hgetContext : Json.get? (cursorPayload noteId context) (PyStr.lit "context") =
      some (contextJson context) := rfl
  simp only [decodeNoteCursor, loads_payload host hid hcontext, hversion, if_true, hgetId,
    hgetContext, sameContext_contextJson]

/-- No cursor is the empty text. -/
theorem encodeNoteCursor_ne_nil (hid : Scalars noteId) (hcontext : ∀ s ∈ context, Scalars s) :
    encodeNoteCursor noteId context ≠ [] := by
  intro h
  have hload := loads_payload ⟨fun _ => none, fun _ _ => false⟩ hid hcontext
  rw [h] at hload
  cases hload

end RoundTrip

end Coppermind.Notes
