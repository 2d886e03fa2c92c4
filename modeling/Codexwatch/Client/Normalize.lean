import Codexwatch.Client.Model
import Codexwatch.Protocol.Codec

/-!
# Error texts before they are stored

`normalize_record` and `truncate_message` of `client/src/store.rs`: a message longer
than 32 KiB is cut at a character boundary, and a suffix records its length and
digest.

## Main definitions

* `truncateMessage` — the cut.
* `normalizeRecord` — the cut in every error message of a record.
-/
namespace Codexwatch.Client

open Protocol

/-- `is_char_boundary`: `n` is the size of a prefix of whole characters. -/
def isCharBoundary : List Char → ℕ → Bool
  | [], n => n = 0
  | c :: cs, n => n = 0 || (c.utf8Size ≤ n && isCharBoundary cs (n - c.utf8Size))

/-- The loop that walks down from `n` to a character boundary. -/
def boundaryBelow (cs : List Char) : ℕ → ℕ
  | 0 => 0
  | n + 1 => if isCharBoundary cs (n + 1) then n + 1 else boundaryBelow cs n

/-- `&message[..n]` at a character boundary `n`. -/
def bytePrefix : List Char → ℕ → List Char
  | [], _ => []
  | c :: cs, n => if c.utf8Size ≤ n then c :: bytePrefix cs (n - c.utf8Size) else []

def MAX_TRUNCATED : ℕ := 32 * 1024

def utf8Bytes (s : String) : Bytes := s.toUTF8.data.toList

def truncationSuffix (codec : Codec) (message : String) : String :=
  s!" [truncated orig_len={message.utf8ByteSize} sha256=" ++
    codec.sha256Hex (utf8Bytes message) ++ "]"

def truncateMessage (codec : Codec) (message : String) : String :=
  if message.utf8ByteSize ≤ MAX_TRUNCATED then message
  else
    let suffix := truncationSuffix codec message
    let keep := MAX_TRUNCATED - suffix.utf8ByteSize
    String.ofList (bytePrefix message.toList (boundaryBelow message.toList keep)) ++ suffix

/-! ## What is left of a message -/

theorem utf8ByteSize_bytePrefix_le (cs : List Char) (n : ℕ) :
    ((bytePrefix cs n).map Char.utf8Size).sum ≤ n := by
  induction cs generalizing n with
  | nil => simp [bytePrefix]
  | cons c cs ih =>
      rw [bytePrefix]
      split
      · have hrest := ih (n - c.utf8Size)
        rw [List.map_cons, List.sum_cons]
        omega
      · simp

theorem boundaryBelow_le (cs : List Char) (n : ℕ) : boundaryBelow cs n ≤ n := by
  induction n with
  | zero => rfl
  | succ n ih =>
      rw [boundaryBelow]
      split <;> omega

section Truncate
variable {message : String} (codec : Codec)

theorem truncationSuffix_eq :
    truncationSuffix codec message =
      " [truncated orig_len=" ++ message.utf8ByteSize.repr ++ " sha256=" ++
        codec.sha256Hex (utf8Bytes message) ++ "]" := rfl

theorem utf8ByteSize_truncationSuffix_le (h : message.utf8ByteSize < 2 ^ 64) :
    (truncationSuffix codec message).utf8ByteSize ≤ 200 := by
  have hdigits := Text.utf8ByteSize_repr_le h
  have hhex : (codec.sha256Hex (utf8Bytes message)).utf8ByteSize = 64 := by
    rw [Codec.sha256Hex, Text.utf8ByteSize_hexEncode, Vector.length_toList]
  have hopen : (" [truncated orig_len=" : String).utf8ByteSize = 21 := by decide
  have hmiddle : (" sha256=" : String).utf8ByteSize = 8 := by decide
  have hclose : ("]" : String).utf8ByteSize = 1 := by decide
  rw [truncationSuffix_eq]
  simp only [String.utf8ByteSize_append, hopen, hmiddle, hclose, hhex]
  generalize message.utf8ByteSize.repr.utf8ByteSize = digits at hdigits
  omega

theorem not_isBlank_append_suffix (kept : String) :
    Text.isBlank (kept ++ truncationSuffix codec message) = false := by
  have hmem : '[' ∈ (kept ++ truncationSuffix codec message).toList := by
    rw [truncationSuffix_eq]
    simp only [String.toList_append, List.mem_append]
    have hopen : '[' ∈ (" [truncated orig_len=" : String).toList := by decide
    simp only [hopen, true_or, or_true]
  exact Text.not_isBlank_of_mem hmem (by decide)

/-- The result of the cut fits, unless the message was blank and short. -/
theorem textWithin_truncateMessage (h : message.utf8ByteSize < 2 ^ 64) :
    TextWithin MAX_ERROR_MESSAGE_BYTES (truncateMessage codec message) ↔
      Text.isBlank message = false ∨ MAX_TRUNCATED < message.utf8ByteSize := by
  rw [truncateMessage]
  split
  · rename_i hshort
    have hmax : message.utf8ByteSize ≤ MAX_ERROR_MESSAGE_BYTES := hshort
    simp [TextWithin, hmax, Nat.not_lt.mpr hshort]
  · rename_i hlong
    have hsuffix := utf8ByteSize_truncationSuffix_le codec h
    have hkeep := boundaryBelow_le message.toList
      (MAX_TRUNCATED - (truncationSuffix codec message).utf8ByteSize)
    have hkept := utf8ByteSize_bytePrefix_le message.toList (boundaryBelow message.toList
      (MAX_TRUNCATED - (truncationSuffix codec message).utf8ByteSize))
    refine iff_of_true ⟨not_isBlank_append_suffix codec _, ?_⟩ (.inr (Nat.lt_of_not_le hlong))
    rw [String.utf8ByteSize_append, Text.utf8ByteSize_ofList]
    have hmax : MAX_TRUNCATED = 32768 := rfl
    have hmax' : MAX_ERROR_MESSAGE_BYTES = 32768 := rfl
    omega

end Truncate

def normalizeError (codec : Codec) : StructuredError → StructuredError
  | .provider inner => .provider { inner with message := truncateMessage codec inner.message }
  | .http inner => .http { inner with
      providerError := inner.providerError.map fun provider =>
        { provider with message := truncateMessage codec provider.message } }
  | .incomplete reason => .incomplete (truncateMessage codec reason)
  | .codexTerminal code message => .codexTerminal code (truncateMessage codec message)
  | .turnAborted reason => .turnAborted (truncateMessage codec reason)
  | .captureLost inner => .captureLost { inner with reason := truncateMessage codec inner.reason }
  | .processTerminated inner => .processTerminated inner
  | .unsupportedCodexBuild inner => .unsupportedCodexBuild inner

def normalizeRecord (codec : Codec) : SummaryRecord → SummaryRecord
  | .task summary =>
      .task { summary with lastError := summary.lastError.map (normalizeError codec) }
  | .taskTransition transition =>
      .taskTransition { transition with error := transition.error.map (normalizeError codec) }
  | .attempt attempt =>
      .attempt { attempt with error := attempt.error.map (normalizeError codec) }
  | .heartbeat heartbeat => .heartbeat { heartbeat with
      health := { heartbeat.health with
        lastError := heartbeat.health.lastError.map (normalizeError codec) } }
  | .session session => .session session
  | .httpExchange exchange => .httpExchange exchange
  | .captureGap gap => .captureGap gap
  | .process process => .process process

end Codexwatch.Client
