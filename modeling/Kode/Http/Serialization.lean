/-
# Responses on the wire

`handle_request` puts the strings of a response between the separators of HTTP/1.1 as
they are, and hands the result to libuv with a 32-bit length. A reader of the protocol
gets the response back exactly if the strings keep to the grammar, no extra header gives
a length of its own, and the whole fits into the length.
-/

import Kode.Http.Server
import Kode.Library.HttpMessage

namespace Kode.Http

open Kode.Library
open HttpServer (serialize statusText uvBufInit)

variable {response : Response}

/-- The fields that a reader is to see. -/
def Response.fields (response : Response) : List (Bytes × Bytes) :=
  (bytesOf "Connection", bytesOf "close") ::
    (bytesOf "Content-Type", response.contentType) ::
      (response.headers ++
        [(bytesOf "Content-Length", bytesOf (toString response.body.length))])

/-- The bytes are read as this response, and none is left over. -/
def Response.ReadFrom (response : Response) (bytes : Bytes) : Prop :=
  ∃ message, HttpMessage.parse bytes = some (message, []) ∧
    (message.status : ℤ) = response.status ∧ message.fields = response.fields ∧
      message.body = response.body

/-- The number of bytes of a response. -/
def Response.size (response : Response) : ℕ :=
  67 + (bytesOf (toString response.status)).length + (statusText response.status).length +
    response.contentType.length +
    (response.headers.map fun header => header.1.length + header.2.length + 4).sum +
    (bytesOf (toString response.body.length)).length + response.body.length

/-- The grammar that a response has to keep to. -/
structure Response.Grammatical (response : Response) : Prop where
  status : 100 ≤ response.status ∧ response.status ≤ 999
  contentType : HttpMessage.IsFieldValue response.contentType
  headers : ∀ header ∈ response.headers,
    HttpMessage.IsField header ∧ HttpMessage.isContentLength header = false

/-- The parts of a response in the order in which they are written. -/
theorem serialize_eq (response : Response) :
    serialize response =
      bytesOf "HTTP/1.1 " ++ bytesOf (toString response.status) ++ [32] ++
        statusText response.status ++ HttpMessage.crlf ++
        (response.fields.flatMap HttpMessage.renderField ++ HttpMessage.crlf ++
          response.body) := by
  have space : bytesOf " " = [32] := by decide
  have lineEnd : bytesOf "\r\n" = HttpMessage.crlf := by decide
  have colon : bytesOf ": " = [58, 32] := by decide
  have connection : bytesOf "Connection: close\r\n" =
      bytesOf "Connection" ++ [58, 32] ++ bytesOf "close" ++ HttpMessage.crlf := by
    decide
  have contentType : bytesOf "Content-Type: " = bytesOf "Content-Type" ++ [58, 32] := by
    decide
  have contentLength : bytesOf "Content-Length: " = bytesOf "Content-Length" ++ [58, 32] := by
    decide
  have headEnd : bytesOf "\r\n\r\n" = HttpMessage.crlf ++ HttpMessage.crlf := by decide
  unfold serialize Response.fields HttpMessage.renderField
  rw [space, lineEnd, colon, connection, contentType, contentLength, headEnd]
  simp only [List.flatMap_cons, List.flatMap_append, List.flatMap_nil, List.append_assoc,
    List.append_nil]

theorem length_serialize (response : Response) :
    (serialize response).length = response.size := by
  have fields : (response.headers.flatMap HttpMessage.renderField).length =
      (response.headers.map fun header => header.1.length + header.2.length + 4).sum := by
    rw [List.length_flatMap]
    refine congrArg List.sum (List.map_congr_left fun header _ => ?_)
    simp only [HttpMessage.renderField, HttpMessage.crlf, List.length_append, List.length_cons,
      List.length_nil]
    omega
  have version : (bytesOf "HTTP/1.1 ").length = 9 := by decide
  have connection : (bytesOf "Connection").length = 10 := by decide
  have close : (bytesOf "close").length = 5 := by decide
  have contentType : (bytesOf "Content-Type").length = 12 := by decide
  have contentLength : (bytesOf "Content-Length").length = 14 := by decide
  rw [serialize_eq]
  simp only [Response.fields, List.flatMap_cons, List.flatMap_append, List.flatMap_nil,
    List.length_append, fields, HttpMessage.renderField, HttpMessage.crlf, version, connection,
    close, contentType, contentLength, List.length_cons, List.length_nil, Response.size]
  omega

/-! ## The status line -/

/-- A negative number is a minus sign and digits. -/
theorem bytesOf_toString_negSucc (number : ℕ) :
    bytesOf (toString (Int.negSucc number)) = 45 :: bytesOf (toString (number + 1)) := by
  show utf8 ("-" ++ toString (number + 1)).toList = _
  rw [String.toList_append]
  rfl

theorem mem_toString_int {number : ℤ} {byte : UInt8}
    (member : byte ∈ bytesOf (toString number)) : byte = 45 ∨ IsDigit byte := by
  cases number with
  | ofNat number => exact Or.inr (isDigit_of_mem_toString member)
  | negSucc number =>
      rw [bytesOf_toString_negSucc] at member
      rcases List.mem_cons.mp member with minus | digit
      · exact Or.inl minus
      · exact Or.inr (isDigit_of_mem_toString digit)

theorem not_mem_toString_int (byte : UInt8) (number : ℤ) (other : byte ≠ 45)
    (noDigit : ¬ IsDigit byte) : byte ∉ bytesOf (toString number) :=
  fun member => (mem_toString_int member).elim other noDigit

/-- Only the numbers of three digits are read back as a status. -/
theorem decimal_status {status : ℤ} {read : ℕ} :
    (if (bytesOf (toString status)).length = 3 then decimal (bytesOf (toString status))
      else none) = some read ↔ (read : ℤ) = status ∧ 100 ≤ status ∧ status ≤ 999 := by
  rw [Option.ite_none_right_eq_some]
  cases status with
  | ofNat number =>
      show (bytesOf (toString number)).length = 3 ∧
        decimal (bytesOf (toString number)) = some read ↔ _
      rw [length_toString_eq_three, decimal_toString, Option.some.injEq]
      simp only [Int.ofNat_eq_natCast]
      omega
  | negSucc number =>
      have unread : decimal (bytesOf (toString (Int.negSucc number))) = none := by
        rw [bytesOf_toString_negSucc]
        exact if_neg fun digits => absurd (digits.2 45 (by simp)) (by decide)
      rw [unread]
      refine iff_of_false (fun both => nomatch both.2) fun both => ?_
      have negative := Int.negSucc_lt_zero number
      omega

theorem isFieldByte_statusText (status : ℤ) :
    ∀ byte ∈ statusText status, HttpMessage.IsFieldByte byte := by
  unfold statusText
  split_ifs <;> decide +kernel

/-- The status line and what stands behind it. -/
theorem splitLine_serialize (response : Response) :
    HttpMessage.splitLine (serialize response) =
      some (bytesOf "HTTP/1.1 " ++ bytesOf (toString response.status) ++ [32] ++
          statusText response.status,
        response.fields.flatMap HttpMessage.renderField ++ HttpMessage.crlf ++
          response.body) := by
  rw [serialize_eq]
  refine HttpMessage.splitLine_append ?_
  have version : (13 : UInt8) ∉ bytesOf "HTTP/1.1 " := by decide
  have code := not_mem_toString_int 13 response.status (by decide) (by decide)
  have reason := HttpMessage.carriageReturn_not_mem (isFieldByte_statusText response.status)
  simp only [List.mem_append, List.mem_singleton, version, code, reason, or_false, or_self]
  decide

theorem parseStatusLine_serialize {read : ℕ} :
    HttpMessage.parseStatusLine (bytesOf "HTTP/1.1 " ++ bytesOf (toString response.status) ++
        [32] ++ statusText response.status) = some read ↔
      (read : ℤ) = response.status ∧ 100 ≤ response.status ∧ response.status ≤ 999 := by
  have word := not_mem_toString_int 32 response.status (by decide) (by decide)
  rw [HttpMessage.parseStatusLine_render word (isFieldByte_statusText response.status)]
  exact decimal_status

/-! ## The whole message -/

theorem isField_connection :
    HttpMessage.IsField (bytesOf "Connection", bytesOf "close") :=
  ⟨by decide +kernel, by decide +kernel, by decide +kernel, by decide +kernel⟩

theorem isField_contentLength (length : ℕ) :
    HttpMessage.IsField (bytesOf "Content-Length", bytesOf (toString length)) := by
  have token : HttpMessage.IsToken (bytesOf "Content-Length") := by decide
  have digit : ∀ byte ∈ bytesOf (toString length), IsDigit byte :=
    fun _ => isDigit_of_mem_toString
  refine ⟨token, ?_, ?_, ?_⟩
  · intro byte member
    exact HttpMessage.isFieldByte_of_isDigit (digit byte member)
  · intro byte first
    exact HttpMessage.isBlank_of_isDigit (digit byte (List.mem_of_mem_head? first))
  · intro byte last
    exact HttpMessage.isBlank_of_isDigit (digit byte (List.mem_of_mem_getLast? last))

theorem isField_of_mem_fields (grammatical : response.Grammatical) :
    ∀ field ∈ response.fields, HttpMessage.IsField field := by
  have token : HttpMessage.IsToken (bytesOf "Content-Type") := by decide
  intro field member
  simp only [Response.fields, List.mem_cons, List.mem_append, List.not_mem_nil,
    or_false] at member
  rcases member with rfl | rfl | extra | rfl
  · exact isField_connection
  · exact ⟨token, grammatical.contentType⟩
  · exact (grammatical.headers field extra).1
  · exact isField_contentLength _

/-- The extra headers that give a length, and the one of the server. -/
theorem filter_fields (response : Response) :
    response.fields.filter HttpMessage.isContentLength =
      response.headers.filter HttpMessage.isContentLength ++
        [(bytesOf "Content-Length", bytesOf (toString response.body.length))] := by
  have connection : (bytesOf "Connection").map HttpMessage.lower ≠ bytesOf "content-length" := by
    decide
  have contentType :
      (bytesOf "Content-Type").map HttpMessage.lower ≠ bytesOf "content-length" := by
    decide
  have length : (bytesOf "Content-Length").map HttpMessage.lower = bytesOf "content-length" := by
    decide
  rw [Response.fields, List.filter_cons_of_neg, List.filter_cons_of_neg, List.filter_append,
    List.filter_cons_of_pos, List.filter_nil]
  · exact decide_eq_true length
  · simpa [HttpMessage.isContentLength] using contentType
  · simpa [HttpMessage.isContentLength] using connection

theorem length_le_length_flatMap (fields : List (Bytes × Bytes)) :
    fields.length ≤ (fields.flatMap HttpMessage.renderField).length := by
  induction fields with
  | nil => exact Nat.le_refl _
  | cons field fields ih =>
      rw [List.flatMap_cons, List.length_append, HttpMessage.renderField]
      simp only [List.length_append, List.length_cons]
      omega

/-- A response that keeps to the grammar is read back from its bytes. -/
theorem parse_serialize (grammatical : response.Grammatical) :
    HttpMessage.parse (serialize response) =
      some (⟨response.status.toNat, response.fields, response.body⟩, []) := by
  have status : (response.status.toNat : ℤ) = response.status := by
    have positive := grammatical.status.1
    omega
  have noOther : response.headers.filter HttpMessage.isContentLength = [] := by
    rw [List.filter_eq_nil_iff]
    intro header member
    simp [(grammatical.headers header member).2]
  rw [HttpMessage.parse_eq_some_iff]
  refine ⟨_, _, splitLine_serialize response,
    parseStatusLine_serialize.mpr ⟨status, grammatical.status⟩, ?_, ?_⟩
  · rw [List.append_nil]
    refine HttpMessage.parseFields_render (isField_of_mem_fields grammatical) _ ?_
    have short := length_le_length_flatMap response.fields
    rw [List.length_append, List.length_append]
    omega
  · unfold HttpMessage.contentLength
    rw [filter_fields, noOther]
    exact decimal_toString _

/-- A response that is read back keeps to the grammar. -/
theorem grammatical_of_parse {message : HttpMessage.Message} {rest : Bytes}
    (parsed : HttpMessage.parse (serialize response) = some (message, rest))
    (same : message.fields = response.fields) : response.Grammatical := by
  have fields := HttpMessage.fields_of_parse parsed
  obtain ⟨line, head, split, first, -, -⟩ := HttpMessage.parse_eq_some_iff.mp parsed
  rw [splitLine_serialize] at split
  cases split
  rw [same] at fields
  have noOther : (response.headers.filter HttpMessage.isContentLength).length = 0 := by
    have one := fields.2
    rw [filter_fields, List.length_append, List.length_singleton] at one
    omega
  constructor
  · exact (parseStatusLine_serialize.mp first).2
  · exact (fields.1 (bytesOf "Content-Type", response.contentType)
      (by simp [Response.fields])).2
  · intro header member
    refine ⟨fields.1 header (by simp [Response.fields, member]), ?_⟩
    have none := List.filter_eq_nil_iff.mp (List.length_eq_zero_iff.mp noOther) header member
    exact Bool.eq_false_iff.mpr none

/-- The response to the request in the buffer. -/
def HttpServer.answer (server : HttpServer) (buffer : Bytes) : Response :=
  server.lookup (requestLine buffer).1 (requestLine buffer).2 buffer

/-- The bytes that `handle_request` writes are read as the response exactly if the
response keeps to the grammar and fits into the length of one buffer. -/
theorem response_readFrom_iff (server : HttpServer) (buffer : Bytes) :
    (server.answer buffer).ReadFrom (server.respond buffer) ↔
      (server.answer buffer).Grammatical ∧ (server.answer buffer).size < 2 ^ 32 := by
  show (server.answer buffer).ReadFrom (uvBufInit (serialize (server.answer buffer))) ↔ _
  generalize server.answer buffer = response
  constructor
  · rintro ⟨message, parsed, -, same, -⟩
    -- The bytes that are written begin the serialization, so that reading it whole leaves
    -- over what was cut off.
    have whole := HttpMessage.parse_extend parsed
      ((serialize response).drop ((serialize response).length % 2 ^ 32))
    rw [uvBufInit, List.take_append_drop, List.nil_append] at whole
    have grammatical := grammatical_of_parse whole same
    refine ⟨grammatical, ?_⟩
    rw [parse_serialize grammatical, Option.some.injEq, Prod.mk.injEq] at whole
    have uncut := List.drop_eq_nil_iff.mp whole.2.symm
    rw [← length_serialize]
    exact Nat.lt_of_le_of_lt uncut (Nat.mod_lt _ (by decide))
  · rintro ⟨grammatical, fits⟩
    have uncut : uvBufInit (serialize response) = serialize response := by
      rw [uvBufInit, Nat.mod_eq_of_lt (by rw [length_serialize]; exact fits), List.take_length]
    refine ⟨_, uncut.symm ▸ parse_serialize grammatical, ?_, rfl, rfl⟩
    exact Int.toNat_of_nonneg (Int.le_trans (by decide) grammatical.status.1)

/-- A header value with a line break in it: no reader can give it back. -/
theorem broken_header_misread :
    ¬ ∀ (server : HttpServer) (buffer : Bytes),
      (server.answer buffer).ReadFrom (server.respond buffer) := by
  intro always
  obtain ⟨message, parsed, -, same, -⟩ := always
    ⟨some fun _ _ _ =>
      { body := bytesOf "ok", headers := [(bytesOf "X", bytesOf "a\r\nY: b")] },
      fun _ _ => none⟩
    (bytesOf "GET / HTTP/1.1\r\n\r\n")
  have valid := (HttpMessage.fields_of_parse parsed).1
  rw [same] at valid
  have broken := valid (bytesOf "X", bytesOf "a\r\nY: b") (by decide)
  exact absurd (broken.2.bytes 13 (by decide)) (by decide)

end Kode.Http
