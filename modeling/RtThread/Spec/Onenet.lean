import RtThread.Lib.Http
import RtThread.Lib.Json
import Mathlib.Data.BitVec

/-!
# Uploads to OneNET (`onenet.c`)

`post_data_process` puts an HTTP request together in `g_post_data_src`, and `post_data_stream_to_onenet` sends it.
A string is the list of its characters, without the zero that ends it.

A function that writes behind a buffer is `none`.
-/

namespace RtThread.Onenet

abbrev Text := List Char

/-- The string fits a buffer of `size` bytes, with its zero. -/
def stored (size : ℕ) (s : Text) : Option Text := if s.length < size then some s else none

/-- `strcat`, to a buffer of `size` bytes. -/
def strcat (size : ℕ) (dest src : Text) : Option Text := stored size (dest ++ src)

/-- What `%d` prints. -/
def decimal (n : ℤ) : Text := if n < 0 then '-' :: Nat.toDigits 10 n.natAbs else Nat.toDigits 10 n.natAbs

/-- What is printed to `post_content`. -/
def postContent (datastream_id : Text) (point_value : BitVec 32) : Text :=
  "\x7b\"datastreams\":[\x7b\"id\":\"".toList ++ datastream_id ++
    "\",\"datapoints\":[\x7b\"value\":".toList ++
    decimal (point_value.toInt.tdiv 10) ++ ".".toList ++ decimal (point_value.toInt.tmod 10) ++
    "\x7d]\x7d]\x7d".toList

/-- What stands before the value in the content. -/
def beforeValue (datastream_id : Text) : Text :=
  "\x7b\"datastreams\":[\x7b\"id\":\"".toList ++ datastream_id ++ "\",\"datapoints\":[\x7b\"value\":".toList

/-- The text of the value: quotient and remainder, with a point. -/
def valueText (point_value : BitVec 32) : Text :=
  decimal (point_value.toInt.tdiv 10) ++ ".".toList ++ decimal (point_value.toInt.tmod 10)

/-- **The uploaded value is an exact tenth.** -/
def ValueExact (point_value : BitVec 32) : Prop := Json.Denotes (valueText point_value) (point_value.toInt / 10)

/-- `post_data_process`: the string in `g_post_data_src`. -/
def postDataProcess (dev_id api_key datastream_id : Text) (point_value : BitVec 32) : Option Text := do
  let post_content ← stored 256 (postContent datastream_id point_value)
  let post_content_len ← stored 4 (decimal post_content.length)
  let src ← strcat 512 [] "POST /devices/".toList
  let src ← strcat 512 src dev_id
  let src ← strcat 512 src "/datapoints HTTP/1.1\r\n".toList
  let src ← strcat 512 src "api-key:".toList
  let src ← strcat 512 src api_key
  let src ← strcat 512 src "\r\n".toList
  let src ← strcat 512 src "Host:api.heclouds.com\r\n".toList
  let src ← strcat 512 src "Content-Length:".toList
  let src ← strcat 512 src post_content_len
  let src ← strcat 512 src "\r\n\r\n".toList
  let src ← strcat 512 src post_content
  strcat 512 src "\r\n\r\n".toList

/-- No control characters, no quotes, and no spaces. -/
def Clean (s : Text) : Prop := ∀ c ∈ s, 0x20 < c.toNat ∧ c.toNat ∉ [0x22, 0x27, 0x7F]

instance : DecidablePred Clean := fun s => List.decidableBAll _ s

/-- **An upload is one request**: no buffer is exceeded, and nothing is left over of what is sent. -/
def OneRequest (dev_id api_key datastream_id : Text) (point_value : BitVec 32) : Prop :=
  ∃ src r, postDataProcess dev_id api_key datastream_id point_value = some src ∧ Http.parse src = some (r, [])

/-- The request that is meant. -/
def request (dev_id api_key datastream_id : Text) (point_value : BitVec 32) : Http.Request where
  method := "POST".toList
  target := "/devices/".toList ++ dev_id ++ "/datapoints".toList
  fields := [("api-key".toList, api_key), ("Host".toList, "api.heclouds.com".toList),
    ("Content-Length".toList, decimal (postContent datastream_id point_value).length)]
  body := postContent datastream_id point_value

/-- The request that is meant, and four bytes more. -/
def sent (dev_id api_key datastream_id : Text) (point_value : BitVec 32) : Text :=
  (request dev_id api_key datastream_id point_value).format ++ "\r\n\r\n".toList

/-- The content and everything that is sent fit their buffers. -/
def Fits (dev_id api_key datastream_id : Text) (point_value : BitVec 32) : Prop :=
  (postContent datastream_id point_value).length < 256 ∧ (sent dev_id api_key datastream_id point_value).length < 512

instance (dev_id api_key datastream_id : Text) (point_value : BitVec 32) :
    Decidable (Fits dev_id api_key datastream_id point_value) := by
  unfold Fits
  infer_instance

end RtThread.Onenet
