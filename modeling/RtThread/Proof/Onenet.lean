import RtThread.Spec.Onenet

/-!
# What an upload sends

`Content-Length` counts the content, and `post_data_process` puts `"\r\n\r\n"` behind it.

* `postDataProcess_eq`: what is sent, and when no buffer is exceeded.
* `upload_leftOver`: **each upload leaves four bytes over**.
* `value_exact_iff`: **the value is an exact tenth** unless it is negative and has a remainder.
-/

namespace RtThread.Onenet

variable {dev_id api_key datastream_id : Text} {point_value : BitVec 32}

theorem Clean.notMem {s : Text} (h : Clean s) {c : Char} (hc : c.toNat ≤ 0x20) : c ∉ s := by
  intro hmem
  have hlt := (h c hmem).1
  omega

/-- Two strings are appended as one. -/
theorem strcat_strcat (size : ℕ) (dest s t : Text) :
    ((strcat size dest s).bind fun src => strcat size src t) = strcat size dest (s ++ t) := by
  unfold strcat stored
  rw [← List.append_assoc]
  by_cases hlong : (dest ++ s ++ t).length < size
  · have hshort : (dest ++ s).length < size := by
      rw [List.length_append] at hlong
      omega
    rw [if_pos hshort, Option.bind_some]
  · rw [if_neg hlong]
    split
    · rw [Option.bind_some, if_neg hlong]
    · rfl

theorem decimal_natCast (n : ℕ) : decimal n = Nat.toDigits 10 n := by
  rw [decimal, if_neg (by omega), Int.natAbs_natCast]

/-- Three digits and a zero fit four bytes. -/
theorem stored_length {n : ℕ} (h : n < 256) : stored 4 (decimal n) = some (decimal n) := by
  have hlen : (decimal n).length ≤ 3 := by
    rw [decimal_natCast, Nat.length_toDigits_le_iff (by decide) (by decide)]
    omega
  rw [stored, if_pos (Nat.lt_succ_of_le hlen)]

/-- **What is sent, and when no buffer is exceeded.** -/
theorem postDataProcess_eq (dev_id api_key datastream_id : Text) (point_value : BitVec 32) :
    postDataProcess dev_id api_key datastream_id point_value =
      if Fits dev_id api_key datastream_id point_value then some (sent dev_id api_key datastream_id point_value)
      else none := by
  unfold postDataProcess
  by_cases hcontent : (postContent datastream_id point_value).length < 256
  · have hsent : sent dev_id api_key datastream_id point_value = [] ++ ("POST /devices/".toList ++ dev_id ++
        "/datapoints HTTP/1.1\r\n".toList ++ "api-key:".toList ++ api_key ++ "\r\n".toList ++
        "Host:api.heclouds.com\r\n".toList ++ "Content-Length:".toList ++
        decimal (postContent datastream_id point_value).length ++ "\r\n\r\n".toList ++
        postContent datastream_id point_value ++ "\r\n\r\n".toList) := by
      simp [sent, request, Http.Request.format, Http.Request.lines, Http.Request.requestLine, Http.crlf]
    simp only [List.append_assoc] at hsent
    rw [stored, if_pos hcontent]
    simp only [Option.bind_eq_bind, Option.bind_some, stored_length hcontent, strcat_strcat]
    rw [strcat, stored, ← hsent]
    exact if_congr (and_iff_right hcontent).symm rfl rfl
  · rw [stored, if_neg hcontent, if_neg fun h => hcontent h.1]
    rfl

theorem request_wellFormed (hdev : Clean dev_id) (hkey : Clean api_key) (datastream_id : Text)
    (point_value : BitVec 32) : (request dev_id api_key datastream_id point_value).WellFormed where
  method := by
    show ' ' ∉ "POST".toList ∧ '\r' ∉ "POST".toList
    decide
  target := by
    have hspace : ' ' ∉ dev_id := hdev.notMem (by decide)
    have hcr : '\r' ∉ dev_id := hdev.notMem (by decide)
    simp [request, hspace, hcr]
  names := by
    intro f hf
    simp only [request, List.mem_cons, List.not_mem_nil, or_false] at hf
    have hnames : ∀ name ∈ ["api-key".toList, "Host".toList, "Content-Length".toList], ':' ∉ name ∧ '\r' ∉ name := by
      decide
    apply hnames
    obtain rfl | rfl | rfl := hf <;> simp
  values := by
    intro f hf
    simp only [request, List.mem_cons, List.not_mem_nil, or_false] at hf
    obtain rfl | rfl | rfl := hf
    · exact hkey.notMem (by decide)
    · decide
    · intro hmem
      rw [decimal_natCast] at hmem
      exact absurd (Nat.isDigit_of_mem_toDigits (by decide) (by decide) hmem) (by decide)
  length := by
    refine ⟨_, rfl, ?_⟩
    rw [decimal_natCast]
    exact Http.decimal_toDigits _

/-- What is sent reads as the request that is meant, and `"\r\n\r\n"` is left of it. -/
theorem parse_sent (hdev : Clean dev_id) (hkey : Clean api_key) (datastream_id : Text) (point_value : BitVec 32) :
    Http.parse (sent dev_id api_key datastream_id point_value) =
      some (request dev_id api_key datastream_id point_value, "\r\n\r\n".toList) :=
  Http.parse_format (request_wellFormed hdev hkey datastream_id point_value) _

/-- A space ends a field. -/
example : ¬Clean "a key".toList := by decide

theorem not_oneRequest (hdev : Clean dev_id) (hkey : Clean api_key) (datastream_id : Text) (point_value : BitVec 32) :
    ¬OneRequest dev_id api_key datastream_id point_value := by
  rintro ⟨src, r, hsrc, hr⟩
  rw [postDataProcess_eq] at hsrc
  split at hsrc
  · cases hsrc
    rw [parse_sent hdev hkey] at hr
    have hempty : "\r\n\r\n".toList = [] := congrArg Prod.snd (Option.some.inj hr)
    exact absurd hempty (by decide)
  · cases hsrc

/-- **Each upload leaves four bytes over**: where no buffer is exceeded, what is sent reads as the request that is
meant, and `"\r\n\r\n"` is left of it. -/
theorem upload_leftOver (hdev : Clean dev_id) (hkey : Clean api_key) (datastream_id : Text) (point_value : BitVec 32) :
    ¬OneRequest dev_id api_key datastream_id point_value ∧
      (Fits dev_id api_key datastream_id point_value → ∃ src,
        postDataProcess dev_id api_key datastream_id point_value = some src ∧
          Http.parse src = some (request dev_id api_key datastream_id point_value, "\r\n\r\n".toList)) := by
  constructor
  · exact not_oneRequest hdev hkey datastream_id point_value
  · intro hfits
    exact ⟨_, by rw [postDataProcess_eq, if_pos hfits], parse_sent hdev hkey datastream_id point_value⟩

theorem upload_leftOver_temperature :
    Fits "12345".toList "key".toList "temperature".toList 215 ∧
      ∃ src, postDataProcess "12345".toList "key".toList "temperature".toList 215 = some src ∧
        Http.parse src =
          some (request "12345".toList "key".toList "temperature".toList 215, "\r\n\r\n".toList) := by
  have hfits : Fits "12345".toList "key".toList "temperature".toList 215 := by
    set_option maxRecDepth 20000 in decide
  have hclean : ∀ s ∈ ["12345".toList, "key".toList], Clean s := by
    decide
  exact ⟨hfits, (upload_leftOver (hclean _ (by simp)) (hclean _ (by simp)) "temperature".toList 215).2 hfits⟩

/-- **The temperature 21.5 is not sent as one request.** -/
theorem temperature_leftOver :
    Clean "12345".toList ∧ Clean "key".toList ∧ Clean "temperature".toList ∧
      Fits "12345".toList "key".toList "temperature".toList 215 ∧
        ¬OneRequest "12345".toList "key".toList "temperature".toList 215 := by
  have hclean : ∀ s ∈ ["12345".toList, "key".toList, "temperature".toList], Clean s := by
    decide
  have hdev := hclean "12345".toList (by simp)
  have hkey := hclean "key".toList (by simp)
  have hfits : Fits "12345".toList "key".toList "temperature".toList 215 := by
    set_option maxRecDepth 20000 in decide
  exact ⟨hdev, hkey, hclean _ (by simp), hfits, not_oneRequest hdev hkey "temperature".toList 215⟩

/-! ## The value -/

theorem decimal_neg {n : ℕ} (hn : n ≠ 0) : decimal (-n) = '-' :: Nat.toDigits 10 n := by
  rw [decimal, if_pos (by omega), Int.natAbs_neg, Int.natAbs_natCast]

/-- The text of a value that is not negative. -/
theorem valueText_of_nonneg {n : ℕ} (h : point_value.toInt = n) :
    valueText point_value = Nat.toDigits 10 (n / 10) ++ '.' :: Nat.toDigits 10 (n % 10) := by
  have hdiv : (n : ℤ).tdiv 10 = (n / 10 : ℕ) := Int.tdiv_eq_ediv_of_nonneg (by omega)
  have hmod : (n : ℤ).tmod 10 = (n % 10 : ℕ) := Int.tmod_eq_emod_of_nonneg (by omega)
  rw [valueText, h, hdiv, hmod, decimal_natCast, decimal_natCast, List.append_assoc]
  rfl

/-- The text of a negative value: both numbers have the sign. -/
theorem valueText_of_neg {n : ℕ} (h : point_value.toInt = -n) :
    valueText point_value = decimal (-(n / 10 : ℕ)) ++ '.' :: decimal (-(n % 10 : ℕ)) := by
  have hdiv : (-(n : ℤ)).tdiv 10 = -(n / 10 : ℕ) := by
    rw [Int.neg_tdiv, Int.tdiv_eq_ediv_of_nonneg (by omega)]
    rfl
  have hmod : (-(n : ℤ)).tmod 10 = -(n % 10 : ℕ) := by
    rw [Int.neg_tmod, Int.tmod_eq_emod_of_nonneg (by omega)]
    rfl
  rw [valueText, h, hdiv, hmod, List.append_assoc]
  rfl

theorem decimal_neg_zero : decimal (-((0 : ℕ) : ℤ)) = Nat.toDigits 10 0 := by
  rw [Int.natCast_zero, Int.neg_zero, ← Int.natCast_zero, decimal_natCast]

theorem point_notMem_decimal (z : ℤ) : '.' ∉ decimal z := by
  have hdigits := (Json.digits_toDigits z.natAbs).point_notMem
  unfold decimal
  split
  · rw [List.mem_cons, not_or]
    exact ⟨by decide, hdigits⟩
  · exact hdigits

theorem head_toDigits_ne_minus {n : ℕ} {rest : Text} : (Nat.toDigits 10 n ++ rest).head? ≠ some '-' := by
  obtain ⟨hne, hdigits⟩ := Json.digits_toDigits n
  obtain ⟨c, l, hl⟩ := List.exists_cons_of_ne_nil hne
  rw [hl] at hdigits ⊢
  intro hhead
  have hdigit := hdigits c List.mem_cons_self
  rw [Option.some.inj hhead] at hdigit
  exact absurd hdigit (by decide)

/-- A negative value without a remainder. -/
theorem denotes_of_neg {n : ℕ} (hrem : n % 10 = 0) :
    Json.Denotes (decimal (-(n / 10 : ℕ)) ++ '.' :: decimal (-(n % 10 : ℕ))) (-(n : ℚ) / 10) := by
  have h := Json.Denotes.tenths (n / 10) (by decide : 0 < 10)
  rw [Nat.add_zero, Nat.mul_div_cancel' (Nat.dvd_of_mod_eq_zero hrem)] at h
  rw [hrem, decimal_neg_zero, neg_div]
  by_cases hquot : n / 10 = 0
  · have h0 : n = 0 := by omega
    subst h0
    rw [hquot, decimal_neg_zero, Nat.cast_zero, zero_div, neg_zero]
    rw [hquot, Nat.cast_zero, zero_div] at h
    exact h
  · rw [decimal_neg hquot, List.cons_append]
    exact h.neg head_toDigits_ne_minus

/-- **The value that is uploaded** is an exact tenth exactly if it is not negative or has no remainder. -/
theorem value_exact_iff (datastream_id : Text) (point_value : BitVec 32) :
    postContent datastream_id point_value =
        beforeValue datastream_id ++ valueText point_value ++ "\x7d]\x7d]\x7d".toList ∧
      (ValueExact point_value ↔ 0 ≤ point_value.toInt ∨ 10 ∣ point_value.toInt) := by
  constructor
  · unfold postContent beforeValue valueText
    simp only [List.append_assoc]
  unfold ValueExact
  rcases Int.le_total 0 point_value.toInt with hsign | hsign
  · obtain ⟨n, hn⟩ := Int.eq_ofNat_of_zero_le hsign
    rw [valueText_of_nonneg hn, hn]
    refine iff_of_true ?_ (.inl (Int.natCast_nonneg n))
    have h := Json.Denotes.tenths (n / 10) (Nat.mod_lt n (by decide : 0 < 10))
    rw [Nat.div_add_mod] at h
    rw [Int.cast_natCast]
    exact h
  · obtain ⟨n, hn⟩ := Int.eq_ofNat_of_zero_le (Int.neg_nonneg.2 hsign)
    have hneg : point_value.toInt = -n := by omega
    rw [valueText_of_neg hneg, hneg]
    by_cases hrem : n % 10 = 0
    · refine iff_of_true ?_ (.inr (by omega))
      rw [Int.cast_neg, Int.cast_natCast]
      exact denotes_of_neg hrem
    · refine iff_of_false (fun h => ?_) (by omega)
      -- the remainder has a sign of its own
      obtain ⟨c, hc, hdigit⟩ := h.digit_of_point (point_notMem_decimal _)
      rw [decimal_neg hrem] at hc
      rw [← Option.some.inj hc] at hdigit
      exact absurd hdigit (by decide)

/-- **Half a degree below zero** is no number. -/
theorem value_not_number : ¬∀ point_value, ValueExact point_value := by
  intro h
  have hpoint : Json.Denotes (['0'] ++ '.' :: ['-', '5']) _ := h (-5)
  obtain ⟨c, hc, hdigit⟩ := hpoint.digit_of_point (by decide)
  rw [← Option.some.inj hc] at hdigit
  exact absurd hdigit (by decide)

end RtThread.Onenet
