import Mathlib

/-!
# IP addresses from strings

`ip_address::from_string` takes a `std::string_view` and hands its pointer to `inet_pton`, which
reads a string that is terminated by a NUL.  The length of the view is not used.  So the result
depends on the memory behind the view, up to the next NUL, unless the view contains a NUL, one
follows it directly, or `inet_pton` does not care how the characters of the view go on.

Memory is a list of bytes that may be read.  A string that is not terminated inside this memory is
read past its end, which has no defined result and is `none` here.  `inet_pton` is a parameter: for
the domain at hand, a function from the string to the bytes that it writes, if it accepts the
string.
-/

namespace Libcoro.Net

/-- `domain_t`. -/
inductive Domain where
  | ipv4
  | ipv6
  deriving DecidableEq, Repr

namespace Domain

/-- `ipv4_len` and `ipv6_len`. -/
def addressLength : Domain → ℕ
  | ipv4 => 4
  | ipv6 => 16

/-- `AF_INET` and `AF_INET6`. -/
def toOs : Domain → ℕ
  | ipv4 => 2
  | ipv6 => 10

/-- The sizes of `sockaddr_in` and `sockaddr_in6`. -/
def sockaddrLength : Domain → ℕ
  | ipv4 => 16
  | ipv6 => 28

end Domain

/-- `ip_address`. -/
structure IpAddress where
  mDomain : Domain
  mData : Fin 16 → UInt8
  deriving DecidableEq

/-- `ip_address::data`. -/
def IpAddress.data (ip : IpAddress) : List UInt8 :=
  (List.ofFn ip.mData).take ip.mDomain.addressLength

/-- A `socket_address`: what is written to `m_storage`, and `m_len`. -/
structure SocketAddress where
  family : ℕ
  port : UInt16
  address : List UInt8
  mLen : ℕ
  deriving DecidableEq, Repr

/-- `htons` on a little-endian machine. -/
def htons (port : UInt16) : UInt16 :=
  (port <<< 8) ||| (port >>> 8)

/-- `socket_address(const ip_address&, std::uint16_t)`. -/
def SocketAddress.ofIp (ip : IpAddress) (port : UInt16) : SocketAddress where
  family := ip.mDomain.toOs
  port := htons port
  address := ip.data
  mLen := ip.mDomain.sockaddrLength

/-- A `std::string_view` into readable memory. -/
structure StringView where
  memory : List UInt8
  data : ℕ
  size : ℕ
  inside : data + size ≤ memory.length

namespace StringView

/-- The characters of a view. -/
def chars (v : StringView) : List UInt8 :=
  (v.memory.drop v.data).take v.size

/-- What stands behind a view. -/
def behind (v : StringView) : List UInt8 :=
  v.memory.drop (v.data + v.size)

/-- A NUL follows the view directly, or the view contains one. -/
def Terminated (v : StringView) : Prop :=
  v.behind.head? = some 0 ∨ 0 ∈ v.chars

instance (v : StringView) : Decidable v.Terminated :=
  inferInstanceAs (Decidable (_ ∨ _))

/-- There is a NUL at or behind the pointer of the view. -/
def Readable (v : StringView) : Prop :=
  0 ∈ v.memory.drop v.data

/-- A view of `chars` with the bytes `rest` behind it. -/
def followedBy (chars rest : List UInt8) : StringView where
  memory := chars ++ rest
  data := 0
  size := chars.length
  inside := by simp

@[simp] lemma chars_followedBy (chars rest : List UInt8) :
    (followedBy chars rest).chars = chars := by
  simp [followedBy, StringView.chars]

@[simp] lemma behind_followedBy (chars rest : List UInt8) :
    (followedBy chars rest).behind = rest := by
  simp [followedBy, behind]

/-- The memory from the pointer of a view on. -/
lemma drop_data (v : StringView) : v.memory.drop v.data = v.chars ++ v.behind := by
  unfold chars behind
  rw [← List.drop_drop, List.take_append_drop]

end StringView

/-- The NUL-terminated string at a pointer, if there is one inside the memory. -/
def cString (memory : List UInt8) (data : ℕ) : Option (List UInt8) :=
  if 0 ∈ memory.drop data then some ((memory.drop data).takeWhile (· ≠ 0)) else none

/-- What `inet_pton` writes to `m_data`, which was zero before. -/
def written {n : ℕ} (bytes : Fin n → UInt8) : Fin 16 → UInt8 :=
  fun i => if h : (i : ℕ) < n then bytes ⟨i, h⟩ else 0

section FromString

variable (domain : Domain) (inetPton : List UInt8 → Option (Fin domain.addressLength → UInt8))

/-- What `from_string` makes of the string that `inet_pton` reads. -/
def convert (string : List UInt8) : Except String IpAddress :=
  match inetPton string with
  | some bytes => .ok { mDomain := domain, mData := written bytes }
  | none => .error "coro::net::ip_address faild to convert from string"

/-- `ip_address::from_string`. -/
def fromString (address : StringView) : Option (Except String IpAddress) :=
  (cString address.memory address.data).map (convert domain inetPton)

/-- `socket_address(std::string_view, std::uint16_t, domain_t)`. -/
def socketAddress (ip : StringView) (port : UInt16) : Option (Except String SocketAddress) :=
  (fromString domain inetPton ip).map fun r => r.map fun a => SocketAddress.ofIp a port

/-- What `inet_pton` makes of the characters does not depend on how they go on. -/
def Determined (chars : List UInt8) : Prop :=
  0 ∈ chars ∨ ∀ rest, 0 ∉ rest → inetPton (chars ++ rest) = inetPton chars

/-- The bytes before the first NUL are not zero. -/
lemma ne_zero_of_not_mem {l : List UInt8} (h : 0 ∉ l) : ∀ a ∈ l, decide (a ≠ 0) = true := by
  intro a ha
  simp only [ne_eq, decide_eq_true_eq]
  rintro rfl
  exact h ha

variable {v : StringView}

/-- The string that `inet_pton` reads from a view without a NUL goes on behind it. -/
lemma cString_of_readable (hv : v.Readable) (hnul : 0 ∉ v.chars) :
    cString v.memory v.data = some (v.chars ++ v.behind.takeWhile (· ≠ 0)) := by
  have hmem : 0 ∈ v.memory.drop v.data := hv
  rw [cString, if_pos hmem, v.drop_data, List.takeWhile_append_of_pos (ne_zero_of_not_mem hnul)]

/-- The string that `inet_pton` reads from a terminated view consists of characters of the view. -/
lemma cString_of_terminated (hv : v.Terminated) :
    cString v.memory v.data = some (v.chars.takeWhile (· ≠ 0)) := by
  by_cases hnul : 0 ∈ v.chars
  · have hshort : (v.chars.takeWhile (· ≠ 0)).length ≠ v.chars.length := by
      intro hlength
      have hall := List.takeWhile_eq_self_iff.mp
        ((List.takeWhile_prefix (p := (· ≠ 0))).eq_of_length hlength) 0 hnul
      simp at hall
    rw [cString, v.drop_data, if_pos (List.mem_append_left _ hnul), List.takeWhile_append,
      if_neg hshort]
  · obtain ⟨rest, hrest⟩ : ∃ rest, v.behind = 0 :: rest :=
      List.head?_eq_some_iff.mp (hv.resolve_right hnul)
    have hreadable : v.Readable := by
      rw [StringView.Readable, v.drop_data, hrest]
      simp
    rw [cString_of_readable hreadable hnul, hrest,
      List.takeWhile_eq_self_iff.mpr (ne_zero_of_not_mem hnul)]
    simp

/-- The result of `from_string` for a terminated view. -/
lemma fromString_of_terminated (hv : v.Terminated) :
    fromString domain inetPton v =
      some (convert domain inetPton (v.chars.takeWhile (· ≠ 0))) := by
  rw [fromString, cString_of_terminated hv, Option.map_some]

/-- The result of `from_string` for a view without a NUL. -/
lemma fromString_of_readable (hv : v.Readable) (hnul : 0 ∉ v.chars) :
    fromString domain inetPton v =
      some (convert domain inetPton (v.chars ++ v.behind.takeWhile (· ≠ 0))) := by
  rw [fromString, cString_of_readable hv hnul, Option.map_some]

/-- Different answers of `inet_pton` give different results. -/
lemma convert_injective {x y : List UInt8}
    (h : convert domain inetPton x = convert domain inetPton y) : inetPton x = inetPton y := by
  have hlength : domain.addressLength ≤ 16 := by cases domain <;> decide
  unfold convert at h
  cases hx : inetPton x <;> cases hy : inetPton y <;> simp only [hx, hy, reduceCtorEq] at h ⊢
  obtain ⟨-, hdata⟩ := IpAddress.mk.inj (Except.ok.inj h)
  refine congrArg some (funext fun i => ?_)
  simpa [written] using congrFun hdata ⟨i, i.isLt.trans_le hlength⟩

end FromString

/-! ## A view that is not terminated -/

/-- The bytes of an ASCII string. -/
def ascii (s : List Char) : List UInt8 :=
  s.map fun c => UInt8.ofNat c.toNat

/-- One number of a dotted quad: one to three digits, no leading zero, at most 255. -/
def octet (digits : List UInt8) : Option UInt8 :=
  let value := digits.foldl (fun n c => 10 * n + (c.toNat - 48)) 0
  if digits ≠ [] ∧ digits.length ≤ 3 ∧ (∀ c ∈ digits, 48 ≤ c ∧ c ≤ 57) ∧
      (digits.head? = some 48 → digits.length = 1) ∧ value ≤ 255 then
    some (UInt8.ofNat value)
  else none

/-- `inet_pton` for `AF_INET`: four numbers, separated by dots. -/
def inetPton4 (string : List UInt8) : Option (Fin 4 → UInt8) :=
  match (string.splitOn 46).map octet with
  | [some a, some b, some c, some d] => some ![a, b, c, d]
  | _ => none

/-- The view of `1.2.3.4` alone in memory, terminated by a NUL. -/
def terminatedView : StringView where
  memory := ascii ['1', '.', '2', '.', '3', '.', '4'] ++ [0]
  data := 0
  size := 7
  inside := by decide

/-- The view of `1.2.3.4` inside a line of text that goes on behind a NUL. -/
def embeddedView : StringView where
  memory := ascii ['i', 'p', '=', '1', '.', '2', '.', '3', '.', '4'] ++ [0, 53, 0]
  data := 3
  size := 7
  inside := by decide

/-- The view of `1.2.3.4` at the beginning of `1.2.3.45`. -/
def unterminatedView : StringView where
  memory := ascii ['1', '.', '2', '.', '3', '.', '4', '5'] ++ [0]
  data := 0
  size := 7
  inside := by decide

end Libcoro.Net
