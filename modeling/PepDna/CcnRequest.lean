import PepDna.Ccn
import PepDna.Traced

/-!
# The arrays behind a CCN request (ccn.c:48-58, 99-128)

`pepdna_fwd_request` reads up to `MAX_BUF_SIZE` bytes into an array of that size and terminates them
behind the last one; `parse_request` copies a word of any length into 32 bytes and appends it to a
prefix in 32 others. The writes are recorded with the array, the offset and the number of bytes.
-/

namespace PepDna.Ccn
open Tcp (MAX_BUF_SIZE)

inductive Buf where
  | buffer
  | content
  | url
  deriving Repr, DecidableEq

def Buf.size : Buf → ℕ
  | .buffer => MAX_BUF_SIZE
  | .content => 32
  | .url => 32

abbrev Write := Traced (Buf × ℕ × ℕ)

def Within (a : Buf × ℕ × ℕ) : Prop := a.2.1 + a.2.2 ≤ a.1.size

instance : DecidablePred Within := fun _ => Nat.decLe _ _

-- "/ndn/test/"
def ndnTest : Bytes := [47, 110, 100, 110, 47, 116, 101, 115, 116, 47]

-- "GET"
def getWord : Bytes := [71, 69, 84]

/-- `sscanf(pos, "%*s %s", content)`: nothing is written if there is no second word. -/
def sscanfContent (pos : Bytes) : Write Bytes :=
  if secondWord pos = [] then pure []
  else Traced.access (.content, 0, (secondWord pos).length + 1) (secondWord pos)

/-- The `strstr` and the `sscanf` of `parse_request`, with `content` empty before. -/
def readContent (request : Bytes) : Write Bytes :=
  match strstr (request.takeWhile (· ≠ 0)) getWord with
  | some pos => sscanfContent pos
  | none => pure []

/-- `parse_request`; `strcpy` and `strcat` write the NUL of the string. -/
def parseRequestInto (request : Bytes) : Write Bytes := do
  Traced.access (.url, 0, ndnTest.length + 1) ()
  let content ← readContent request
  Traced.access (.url, ndnTest.length, content.length + 1) (ndnTest ++ content)

/-- `pepdna_fwd_request` when `kernel_recvmsg` has put `bs` into the buffer: the URL for the relay. -/
def pepdnaFwdRequest (bs : Bytes) : Write Bytes := do
  Traced.access (.buffer, 0, bs.length) ()
  Traced.access (.buffer, bs.length, 1) ()
  parseRequestInto bs

/-- The word that follows the first `GET` of a byte string. -/
def requestToken (bs : Bytes) : Bytes := ((strstr bs getWord).map secondWord).getD []

/-- Every write stays in its array, and the URL is the prefix with the token of the request. -/
structure BoundedExact (bs : Bytes) : Prop where
  within : (pepdnaFwdRequest bs).All Within
  url : (pepdnaFwdRequest bs).val = ndnTest ++ requestToken bs

theorem sscanfContent_val (pos : Bytes) : (sscanfContent pos).val = secondWord pos := by
  unfold sscanfContent
  split
  · next h => exact h.symm
  · rfl

theorem sscanfContent_within_iff (pos : Bytes) :
    (sscanfContent pos).All Within ↔ (secondWord pos).length ≤ 31 := by
  unfold sscanfContent
  split
  · next h => simp [h]
  · simp only [Traced.all_access, Within, Buf.size]
    omega

theorem readContent_val (request : Bytes) :
    (readContent request).val = requestToken (request.takeWhile (· ≠ 0)) := by
  unfold readContent requestToken
  cases strstr (request.takeWhile (· ≠ 0)) getWord with
  | none => rfl
  | some pos => exact sscanfContent_val pos

theorem readContent_within_iff (request : Bytes) :
    (readContent request).All Within ↔
      (requestToken (request.takeWhile (· ≠ 0))).length ≤ 31 := by
  unfold readContent requestToken
  cases strstr (request.takeWhile (· ≠ 0)) getWord with
  | none => simp
  | some pos => exact sscanfContent_within_iff pos

theorem parseRequestInto_val (request : Bytes) :
    (parseRequestInto request).val = ndnTest ++ requestToken (request.takeWhile (· ≠ 0)) := by
  simp only [parseRequestInto, Traced.val_bind, Traced.val_access, readContent_val]

/- The prefix makes `url` overflow before `content` does. -/
theorem parseRequestInto_within_iff (request : Bytes) :
    (parseRequestInto request).All Within ↔
      (requestToken (request.takeWhile (· ≠ 0))).length ≤ 21 := by
  have hlen : ndnTest.length = 10 := rfl
  simp only [parseRequestInto, Traced.all_bind, Traced.all_access, readContent_within_iff,
    readContent_val, Within, Buf.size, hlen]
  omega

/- The model of the work and this one pass on the same URL. -/
theorem pepdnaFwdRequest_val (bs : Bytes) : (pepdnaFwdRequest bs).val = parseRequest bs := by
  have h := parseRequestInto_val bs
  simp only [pepdnaFwdRequest, Traced.val_bind, h]
  unfold parseRequest requestToken getWord
  cases strstr (bs.takeWhile (· ≠ 0)) [71, 69, 84] with
  | none => rfl
  | some pos => rfl

/-! ### A request that is cut off -/

theorem takeWhile_take (p : Byte → Bool) (l : Bytes) (n : ℕ) :
    (l.take n).takeWhile p = (l.takeWhile p).take n := by
  induction l generalizing n with
  | nil => rw [List.take_nil, List.takeWhile_nil, List.take_nil]
  | cons b l ih =>
    cases n with
    | zero => rfl
    | succ n =>
      rw [List.take_succ_cons, List.takeWhile_cons, List.takeWhile_cons]
      split
      · rw [List.take_succ_cons, ih]
      · rfl

theorem dropWhile_take (p : Byte → Bool) (l : Bytes) (n : ℕ) :
    (l.take n).dropWhile p = (l.dropWhile p).take (n - (l.takeWhile p).length) := by
  induction l generalizing n with
  | nil => rw [List.take_nil, List.dropWhile_nil, List.take_nil]
  | cons b l ih =>
    cases n with
    | zero => rw [Nat.zero_sub, List.take_zero, List.take_zero, List.dropWhile_nil]
    | succ n =>
      rw [List.take_succ_cons, List.dropWhile_cons, List.dropWhile_cons, List.takeWhile_cons]
      split
      · rw [ih, List.length_cons, Nat.add_sub_add_right]
      · rfl

/-- The bytes before the second word: the first one and the blanks behind it. -/
def wordStart (pos : Bytes) : ℕ :=
  (pos.takeWhile (!isspace ·)).length + ((pos.dropWhile (!isspace ·)).takeWhile isspace).length

theorem secondWord_take (pos : Bytes) (n : ℕ) :
    secondWord (pos.take n) = (secondWord pos).take (n - wordStart pos) := by
  unfold secondWord wordStart
  rw [dropWhile_take, dropWhile_take, takeWhile_take, Nat.sub_sub]

theorem strstr_cons (b : Byte) (s pat : Bytes) :
    strstr (b :: s) pat = if pat.isPrefixOf (b :: s) then some (b :: s) else strstr s pat := by
  unfold strstr
  rw [List.tails_cons, List.find?_cons]
  cases pat.isPrefixOf (b :: s) with
  | false => rfl
  | true => rfl

theorem getWord_isPrefixOf_take (s : Bytes) (n : ℕ) :
    getWord.isPrefixOf (s.take n) = true ↔ (getWord.isPrefixOf s = true ∧ 3 ≤ n) := by
  rw [List.isPrefixOf_iff_prefix, List.isPrefixOf_iff_prefix]
  constructor
  · intro h
    have hlen := h.length_le
    rw [List.length_take] at hlen
    exact ⟨h.trans (List.take_prefix n s), hlen.trans (Nat.min_le_left _ _)⟩
  · rintro ⟨h, hn⟩
    have htake := h.take n
    rwa [List.take_of_length_le hn] at htake

/-- The offset of the token, and that of the end of the request if there is none. -/
def tokenStart : Bytes → ℕ
  | [] => 0
  | b :: s => if getWord.isPrefixOf (b :: s) then wordStart (b :: s) else tokenStart s + 1

/-- The first word begins with `GET`. -/
theorem three_le_wordStart {pos : Bytes} (h : getWord.isPrefixOf pos = true) :
    3 ≤ wordStart pos := by
  obtain ⟨rest, rfl⟩ := List.isPrefixOf_iff_prefix.mp h
  unfold wordStart
  have hword : ((getWord ++ rest).takeWhile (!isspace ·)).length =
      3 + (rest.takeWhile (!isspace ·)).length := by
    have hall : getWord.all (!isspace ·) = true := by decide
    rw [List.all_eq_true] at hall
    rw [List.takeWhile_append_of_pos hall, List.length_append]
    rfl
  omega

theorem requestToken_cons (b : Byte) (s : Bytes) :
    requestToken (b :: s) =
      if getWord.isPrefixOf (b :: s) then secondWord (b :: s) else requestToken s := by
  unfold requestToken
  rw [strstr_cons]
  split <;> rfl

theorem requestToken_of_short {bs : Bytes} (h : bs.length < 3) : requestToken bs = [] := by
  induction bs with
  | nil => rfl
  | cons b s ih =>
    rw [List.length_cons] at h
    rw [requestToken_cons, if_neg, ih (by omega)]
    intro hget
    have hlen := (List.isPrefixOf_iff_prefix.mp hget).length_le
    rw [List.length_cons, show getWord.length = 3 from rfl] at hlen
    omega

/-- Of a request that is cut off the parser gets the part of the token that is left. -/
theorem requestToken_take (bs : Bytes) (n : ℕ) :
    requestToken (bs.take n) = (requestToken bs).take (n - tokenStart bs) := by
  induction bs generalizing n with
  | nil => rw [List.take_nil, show requestToken [] = [] from rfl, List.take_nil]
  | cons b s ih =>
    cases n with
    | zero => rw [Nat.zero_sub, List.take_zero, List.take_zero, show requestToken [] = [] from rfl]
    | succ n =>
      have htake := getWord_isPrefixOf_take (b :: s) (n + 1)
      rw [List.take_succ_cons] at htake
      rw [List.take_succ_cons, requestToken_cons, requestToken_cons, tokenStart]
      by_cases hget : getWord.isPrefixOf (b :: s) = true
      · rw [if_pos hget, if_pos hget]
        by_cases hn : 3 ≤ n + 1
        · rw [if_pos (htake.mpr ⟨hget, hn⟩), ← List.take_succ_cons, secondWord_take]
        · -- too short for `GET`, and so for the word behind it
          have hzero : n + 1 - wordStart (b :: s) = 0 := by
            have := three_le_wordStart hget
            omega
          have hshort : (s.take n).length < 3 := by
            rw [List.length_take]
            omega
          rw [if_neg fun h => hn (htake.mp h).2, hzero, List.take_zero]
          exact requestToken_of_short hshort
      · rw [if_neg hget, if_neg hget, if_neg fun h => hget (htake.mp h).1, ih,
          Nat.add_sub_add_right]

/-- The offset behind the last byte of the token, 0 if there is none. -/
def tokenEnd (bs : Bytes) : ℕ :=
  if requestToken bs = [] then 0 else tokenStart bs + (requestToken bs).length

theorem zero_mem_take_iff (bs : Bytes) (n : ℕ) :
    0 ∈ bs.take n ↔ (bs.takeWhile (· ≠ 0)).length < min n bs.length := by
  induction bs generalizing n with
  | nil => simp
  | cons b s ih =>
    cases n with
    | zero => simp
    | succ n =>
      rw [List.take_succ_cons, List.mem_cons, ih, List.takeWhile_cons, List.length_cons]
      by_cases hb : b = 0
      · simp [hb]
      · have hne : ¬(0 = b) := fun h => hb h.symm
        rw [or_iff_right hne, if_pos (decide_eq_true hb), List.length_cons]
        omega

theorem wordStart_add_le (pos : Bytes) :
    wordStart pos + (secondWord pos).length ≤ pos.length := by
  have hword := congrArg List.length (@List.takeWhile_append_dropWhile _ (!isspace ·) pos)
  have hgap := congrArg List.length
    (@List.takeWhile_append_dropWhile _ isspace (pos.dropWhile (!isspace ·)))
  have htoken := (List.takeWhile_prefix (l := (pos.dropWhile (!isspace ·)).dropWhile isspace)
    (!isspace ·)).length_le
  rw [List.length_append] at hword hgap
  unfold wordStart secondWord
  omega

theorem tokenStart_add_le (bs : Bytes) :
    tokenStart bs + (requestToken bs).length ≤ bs.length := by
  induction bs with
  | nil => exact Nat.le_refl 0
  | cons b s ih =>
    rw [requestToken_cons, tokenStart]
    split
    · exact wordStart_add_le (b :: s)
    · rw [List.length_cons]
      omega

/-- The bytes before the first NUL have the token of all of them exactly if no NUL stands before
its end. -/
theorem requestToken_takeWhile_iff (bs : Bytes) :
    requestToken (bs.takeWhile (· ≠ 0)) = requestToken bs ↔ 0 ∉ bs.take (tokenEnd bs) := by
  have hcut : bs.takeWhile (· ≠ 0) = bs.take (bs.takeWhile (· ≠ 0)).length :=
    List.prefix_iff_eq_take.mp (List.takeWhile_prefix _)
  rw [hcut, requestToken_take, zero_mem_take_iff, List.take_eq_self_iff, Nat.not_lt]
  have hle := tokenStart_add_le bs
  unfold tokenEnd
  split
  · next hnone =>
    rw [hnone, List.length_nil, Nat.zero_min]
    exact ⟨fun _ => Nat.zero_le _, fun _ => Nat.zero_le _⟩
  · next hsome =>
    have hpos := List.length_pos_of_ne_nil hsome
    omega

/-- A request is translated within the arrays and exactly if it leaves room for the terminator, its
token has at most 21 bytes, and no NUL byte stands before the end of the token. -/
theorem boundedExact_iff (bs : Bytes) :
    BoundedExact bs ↔
      (bs.length < MAX_BUF_SIZE ∧ (requestToken bs).length ≤ 21 ∧ 0 ∉ bs.take (tokenEnd bs)) := by
  rw [← requestToken_takeWhile_iff]
  have hbuf : Within (Buf.buffer, 0, bs.length) ∧ Within (Buf.buffer, bs.length, 1) ↔
      bs.length < MAX_BUF_SIZE := by
    simp only [Within, Buf.size]
    omega
  have hwithin : (pepdnaFwdRequest bs).All Within ↔ (bs.length < MAX_BUF_SIZE ∧
      (requestToken (bs.takeWhile (· ≠ 0))).length ≤ 21) := by
    simp only [pepdnaFwdRequest, Traced.all_bind, Traced.all_access, parseRequestInto_within_iff]
    rw [← and_assoc, hbuf]
  have hurl : (pepdnaFwdRequest bs).val = ndnTest ++ requestToken bs ↔
      requestToken (bs.takeWhile (· ≠ 0)) = requestToken bs := by
    have h := parseRequestInto_val bs
    simp only [pepdnaFwdRequest, Traced.val_bind, h, List.append_cancel_left_eq]
  constructor
  · rintro ⟨hin, hexact⟩
    have htok := hurl.mp hexact
    obtain ⟨hlen, htoken⟩ := hwithin.mp hin
    rw [htok] at htoken
    exact ⟨hlen, htoken, htok⟩
  · rintro ⟨hlen, htoken, htok⟩
    refine ⟨hwithin.mpr ⟨hlen, ?_⟩, hurl.mpr htok⟩
    rw [htok]
    exact htoken

-- GET and a word of 22 letters
def longWord : Bytes := getWord ++ 32 :: List.replicate 22 97

-- a NUL stands before the name
def hiddenWord : Bytes := getWord ++ [0, 32, 97]

/- The terminator of the URL is written to `url[32]`; and a NUL hides the name from the parser. -/
theorem longWord_not_boundedExact :
    ¬(pepdnaFwdRequest longWord).All Within ∧ ¬BoundedExact longWord ∧
      requestToken hiddenWord = [97] ∧ (pepdnaFwdRequest hiddenWord).val = ndnTest := by
  refine ⟨by decide, ?_, by decide, by decide⟩
  intro h
  exact absurd h.within (by decide)

end PepDna.Ccn
