import AiKanban.Domain.Schema
import AiKanban.Formats.Json
import AiKanban.Formats.UriComponent

/-!
# The attachment header

A filename is written twice, as an ASCII fallback between quotes and in full percent-encoded. Names are
well-formed texts: `encodeURIComponent` rejects a surrogate on its own.
-/
namespace AiKanban.Server

open Domain Formats

/-- `/[\u0000-\u001f\u007f"\\/]/` -/
def isControlQuoteOrSeparator (c : Char) : Bool :=
  c.toNat ≤ 0x1f || c.toNat == 0x7f || c.toNat == 0x22 || c.toNat == 0x5c || c.toNat == 0x2f

/-- Control characters, quotes, backslashes and slashes removed. -/
def sanitizeFilename (filename : String) : String :=
  let cleaned := trim (String.ofList (filename.toList.filter fun c => !isControlQuoteOrSeparator c))
  if cleaned = "" then "download" else cleaned

/-- `'`, `(`, `)` and `*`. -/
def isReservedMark (b : ℕ) : Bool := b == 0x27 || b == 0x28 || b == 0x29 || b == 0x2A

/-- Stricter than `encodeURIComponent`. -/
def encodeRfc5987 (value : String) : List ℕ :=
  percentEncode (fun b => !isReservedMark b) (encodeURIComponent value)

def isPrintableAscii (c : Char) : Bool := 0x20 ≤ c.toNat && c.toNat ≤ 0x7e

/-- Every unit that is not printable ASCII becomes an underscore. -/
def asciiFallback (text : String) : String :=
  String.ofList (text.toList.flatMap fun c =>
    if isPrintableAscii c then [c] else (Json.utf16 c).map fun _ => '_')

/-- A safe `Content-Disposition: attachment` header value. -/
def contentDispositionAttachment (filename : String) : String :=
  let sanitized := sanitizeFilename filename
  "attachment; filename=\"" ++ asciiFallback sanitized ++ "\"; filename*=UTF-8''" ++
    String.ofList ((encodeRfc5987 sanitized).map Char.ofNat)

end AiKanban.Server
