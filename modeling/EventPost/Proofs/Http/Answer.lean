import EventPost.Proofs.Http.Body
import EventPost.Proofs.Http.Head

/-!
Answers as a service writes them, with the length of their body. Such an answer is read as it was
written, as far as its body came; only a length that is too long for a number is refused, whatever
the answer says beside it.
-/

namespace EventPost.Http

open Numeral (decimal decimalText)
open Text (Bytes bytesOf)

def bodyHeaders : List String := ["content-length", "transfer-encoding", "content-encoding"]

/-- Headers that can be written beside a length, and say nothing else of the body. -/
structure Plain (headers : List (String × String)) : Prop where
  wellFormed : ∀ h ∈ headers, WellFormed h
  few : headers.length + 2 ≤ Head.maxHeaders
  apart : ∀ h ∈ headers, h.1.toLower ∉ bodyHeaders

theorem plain_nil : Plain [] :=
  ⟨fun _ h => (List.not_mem_nil h).elim, by decide, fun _ h => (List.not_mem_nil h).elim⟩

theorem lookup_received {headers : List (String × String)} {name : String}
    (hn : name ∈ bodyHeaders) (apart : ∀ h ∈ headers, h.1.toLower ∉ bodyHeaders)
    (others : List (String × Bytes)) :
    (headers.map received ++ others).lookup name = others.lookup name := by
  induction headers with
  | nil => rfl
  | cons h headers ih =>
    have hne : (name == h.1.toLower) = false := by
      rw [beq_eq_false_iff_ne]
      rintro rfl
      exact apart h List.mem_cons_self hn
    rw [List.map_cons, List.cons_append, received, List.lookup_cons, hne]
    exact ih fun g hg => apart g (List.mem_cons_of_mem h hg)

theorem isVisibleByte_of_isDigit {b : UInt8} (h : Head.isDigit b = true) :
    Head.isVisibleByte b = true := by
  simp only [Head.isDigit, Head.isVisibleByte, Bool.and_eq_true, decide_eq_true_eq,
    Bool.or_eq_true, UInt8.le_iff_toNat_le, UInt8.reduceToNat] at h ⊢
  omega

theorem chars_digits (n : Nat) :
    (bytesOf (decimalText n)).map (fun b => Char.ofNat b.toNat) = decimal n := by
  have hchars : ∀ cs : List Char, (∀ c ∈ cs, c.isDigit = true) →
      (Text.encode cs).map (fun b => Char.ofNat b.toNat) = cs := by
    intro cs h
    induction cs with
    | nil => rfl
    | cons c cs ih =>
      obtain ⟨b, hb, -, hc⟩ := byte_of_isDigit (h c List.mem_cons_self)
      rw [Text.encode, List.flatMap_cons, hb, List.map_append, List.map_singleton, hc]
      exact congrArg (c :: ·) (ih fun d hd => h d (List.mem_cons_of_mem c hd))
  rw [bytesOf, decimalText, String.toList_ofList]
  exact hchars _ fun _ => Numeral.isDigit_of_mem_decimal

theorem length_digits (n : Nat) : (bytesOf (decimalText n)).length = (decimal n).length := by
  rw [← chars_digits n, List.length_map]

theorem textOf?_digits (n : Nat) :
    Head.textOf? (bytesOf (decimalText n)) = some (decimalText n) := by
  have hvisible : (bytesOf (decimalText n)).all Head.isVisibleByte = true := by
    rw [List.all_eq_true]
    exact fun b hb => isVisibleByte_of_isDigit (isDigit_of_mem_digits hb)
  rw [Head.textOf?, if_pos hvisible, chars_digits]
  rfl

theorem declared_written {status : Nat} {headers : List (String × String)} {length : Nat}
    (hp : Plain headers) : Framing.declared (writtenHead status headers length) =
      if length ≤ Numeral.maxWord then .ok (some (.counted length))
      else .error (.brokenProtocol "content-length header not a number") := by
  have hchunks : (writtenHead status headers length).header? "transfer-encoding" = none := by
    rw [Head.header?, writtenHead, lookup_received (by decide) hp.apart]
    rfl
  have hlength : (writtenHead status headers length).header? "content-length" =
      some (decimalText length) := by
    rw [Head.header?, writtenHead, lookup_received (by decide) hp.apart, List.lookup_cons_self]
    exact textOf?_digits length
  unfold Framing.declared
  rw [hlength, hchunks]
  simp only [decimalText, String.toList_ofList]
  rw [Numeral.readWord_decimal]
  by_cases hl : length ≤ Numeral.maxWord
  · have hword : (UInt64.ofNat length).toNat = length :=
      UInt64.toNat_ofNat_of_lt' (Nat.lt_succ_of_le hl)
    rw [if_pos hl, if_pos hl]
    simp only [hword]
    rfl
  · rw [if_neg hl, if_neg hl]

/-- A response as a service writes it: a status, a length, other headers, and the bytes that come
behind the head before the connection ends. -/
structure Answer where
  status : Nat
  headers : List (String × String)
  announced : Nat
  sent : Bytes
  ending : Ending

namespace Answer

def reply (a : Answer) : Reply :=
  { Reply.response a.status a.headers a.announced a.sent with ending := a.ending }

def head (a : Answer) : Head := writtenHead a.status a.headers a.announced

def start (a : Answer) : Bytes := (Reply.response a.status a.headers a.announced []).bytes

/-- The client can read the head of the answer, and looks for the length of its body there. -/
structure Legible (a : Answer) : Prop where
  status : 200 ≤ a.status ∧ a.status ≤ 999
  modified : a.status ≠ 304
  plain : Plain a.headers
  short : a.start.length ≤ Response.maxHead

def framing (a : Answer) : Framing := if a.status = 204 then .nothing else .counted a.announced

def response (a : Answer) : Response := ⟨a.head, Payload.read a.framing a.ending a.sent⟩

theorem ofHead_head {a : Answer} (h : a.Legible) : Framing.ofHead a.head =
    if a.announced ≤ Numeral.maxWord then .ok a.framing
    else .error (.brokenProtocol "content-length header not a number") := by
  have hstatus : a.head.status = a.status := rfl
  have hrange := h.status
  have hmodified := h.modified
  rw [Framing.ofHead, head, declared_written h.plain, ← head]
  by_cases hl : a.announced ≤ Numeral.maxWord
  · rw [if_pos hl, if_pos hl]
    simp only [hstatus, framing]
    by_cases h204 : a.status = 204
    · rw [if_pos (.inr (.inl h204)), if_pos h204]
    · rw [if_neg (by omega), if_neg h204]
      rfl
  · rw [if_neg hl, if_neg hl]

theorem bytes_reply (a : Answer) : a.reply.bytes = a.start ++ a.sent := by
  simp only [reply, start, Reply.response, List.append_assoc, List.cons_append, List.nil_append]

theorem read_head {a : Answer} (h : a.Legible) :
    Head.read a.reply.bytes = .ok (some (a.head, some a.sent)) :=
  read_response ⟨Nat.le_trans (by decide) h.status.1, h.status.2⟩ h.plain.wellFormed h.plain.few
    a.announced a.sent

theorem length_head {a : Answer} (h : a.Legible) :
    a.reply.bytes.length - a.sent.length ≤ Response.maxHead := by
  have hshort := h.short
  rw [bytes_reply, List.length_append]
  omega

theorem read_reply {a : Answer} (h : a.Legible) : Response.read a.reply.bytes a.reply.ending =
    if a.announced ≤ Numeral.maxWord then .ok a.response
    else .error (.brokenProtocol "content-length header not a number") := by
  have hlength := Nat.not_lt.2 (length_head h)
  simp only [Response.read, read_head h, ofHead_head h, if_neg hlength]
  by_cases hl : a.announced ≤ Numeral.maxWord
  · simp only [if_pos hl]
    rfl
  · simp only [if_neg hl]

theorem packed_response {a : Answer} (h : Plain a.headers) : a.response.packed = false := by
  have hpacked : a.head.header? "content-encoding" = none := by
    rw [Head.header?, head, writtenHead, lookup_received (by decide) h.apart]
    rfl
  rw [Response.packed, response, hpacked]
  rfl

theorem payload_response {a : Answer} (hs : a.status ≠ 204) (hcut : a.sent.length < a.announced) :
    a.response.payload = ⟨a.sent, some (a.ending.error .receiveBody)⟩ := by
  have htake : a.sent.take a.announced = a.sent := List.take_of_length_le (Nat.le_of_lt hcut)
  simp only [response, framing, if_neg hs, Payload.read, htake, if_neg (Nat.ne_of_lt hcut)]

theorem error_response {a : Answer} (hs : a.status = 204 ∨ a.announced ≤ a.sent.length) :
    a.response.payload.error = none := by
  simp only [response, framing]
  split
  · rfl
  · have hwhole : (a.sent.take a.announced).length = a.announced := by
      rw [List.length_take]
      omega
    simp only [Payload.read, if_pos hwhole]

/-- All of the body that the answer announces came, and it is not too long. -/
structure Delivers (a : Answer) (body : Bytes) : Prop where
  whole : a.status = 204 ∨ a.announced ≤ a.sent.length
  bytes : body = if a.status = 204 then [] else a.sent.take a.announced
  short : body.length < Response.maxBody

theorem content_response {a : Answer} (h : Plain a.headers) {body : Bytes} :
    a.response.content = .ok body ↔ a.Delivers body := by
  have hcontent : a.response.content = a.response.received := by
    rw [Response.content, packed_response h]
    rfl
  have hpayload : a.response.payload = Payload.read a.framing a.ending a.sent := rfl
  rw [hcontent, Response.received, hpayload]
  by_cases h204 : a.status = 204
  · rw [framing, if_pos h204, Payload.read]
    simp only [List.length_nil, if_neg (show ¬Response.maxBody ≤ 0 by decide), Except.ok.injEq]
    constructor
    · rintro rfl
      exact ⟨.inl h204, by rw [if_pos h204], by decide⟩
    · intro hd
      rw [hd.bytes, if_pos h204]
  · rw [framing, if_neg h204, Payload.read]
    dsimp only
    by_cases hlong : Response.maxBody ≤ (a.sent.take a.announced).length
    · rw [if_pos hlong]
      constructor
      · intro hok
        exact nomatch hok
      · intro hd
        have hshort := hd.short
        rw [hd.bytes, if_neg h204] at hshort
        omega
    · rw [if_neg hlong]
      by_cases hwhole : (a.sent.take a.announced).length = a.announced
      · simp only [if_pos hwhole, Except.ok.injEq]
        rw [List.length_take] at hwhole
        constructor
        · rintro rfl
          exact ⟨.inr (by omega), by rw [if_neg h204], Nat.lt_of_not_le hlong⟩
        · intro hd
          rw [hd.bytes, if_neg h204]
      · simp only [if_neg hwhole]
        rw [List.length_take] at hwhole
        constructor
        · intro hok
          exact nomatch hok
        · intro hd
          rcases hd.whole with h | h
          · exact absurd h h204
          · omega

theorem legible_of_bare {a : Answer} (hs : 200 ≤ a.status ∧ a.status ≤ 999) (hm : a.status ≠ 304)
    (hh : a.headers = []) (hl : (decimal a.announced).length ≤ 60000) : a.Legible := by
  have hcode : 100 ≤ a.status ∧ a.status ≤ 999 := ⟨Nat.le_trans (by decide) hs.1, hs.2⟩
  have hnumber : (bytesOf (decimalText a.announced)).length ≤ 60000 := by
    rw [length_digits]
    exact hl
  have hstatus : (bytesOf (decimalText a.status)).length = 3 := by rw [digits_of_status hcode]; rfl
  have hfixed : (bytesOf "HTTP/1.1 ").length = 9 ∧ (bytesOf " \r\n").length = 3 ∧
      (bytesOf "Content-Length").length = 14 ∧ (bytesOf "Connection").length = 10 ∧
      (bytesOf "close").length = 5 := by decide
  have hmax : Response.maxHead = 65536 := rfl
  refine ⟨hs, hm, hh ▸ plain_nil, ?_⟩
  simp only [start, Reply.response, hh, headerLine_eq, List.flatMap_nil, Text.bytesOf_append,
    List.length_append, List.length_cons, List.length_nil, hstatus, hfixed]
  omega

end Answer

end EventPost.Http
