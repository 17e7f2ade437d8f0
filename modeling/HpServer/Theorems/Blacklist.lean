import HpServer.Theorems.IpFilterSet

/-!
# Wide ranges and files with bad lines

What the blacklist does beyond the exact set of `IpFilterSet`: a range with a mask below 24 is meant to be blocked,
but only its address is; and a line of the file on which `stoi` throws keeps every line behind it from being read.
-/

namespace HpServer
namespace IpFilter

/-- The filters that calls make from one of the constructor. -/
inductive Built : IpFilter → Prop
  | new {size : Nat} (hsize : 1 ≤ size) : Built (new size)
  | addIp {filter : IpFilter} (h : Built filter) (ip : IpAddress) : Built (filter.addIp ip)
  | addCidr {filter filter' : IpFilter} (h : Built filter) {cidr : Bytes}
    (hadd : filter.addCidr cidr = some filter') : Built filter'
  | init {filter filter' : IpFilter} (h : Built filter) {file : Option Bytes}
    (hinit : filter.init file = some filter') : Built filter'

/-- Each of them answers for a set. -/
theorem Built.exact {filter : IpFilter} (h : Built filter) : ∃ blocked, Exact filter blocked := by
  induction h with
  | new hsize => exact ⟨∅, exact_new hsize⟩
  | addIp h ip ih =>
    obtain ⟨blocked, hexact⟩ := ih
    exact ⟨_, hexact.addIp ip⟩
  | addCidr h hadd ih =>
    obtain ⟨blocked, hexact⟩ := ih
    obtain ⟨ips, rfl⟩ := addCidr_eq_foldl hadd
    exact ⟨_, hexact.foldl_addIp ips⟩
  | init h hinit ih =>
    obtain ⟨blocked, hexact⟩ := ih
    obtain ⟨ips, hexact⟩ := hexact.init hinit
    exact ⟨_, hexact⟩

/-- Adding addresses blocks these and those that were blocked before. -/
theorem Built.isBlocked_foldl_addIp {filter : IpFilter} (h : Built filter) (ips : List IpAddress) (x : IpAddress) :
    (ips.foldl IpFilter.addIp filter).isBlocked x = true ↔ filter.isBlocked x = true ∨ x ∈ ips := by
  obtain ⟨blocked, hexact⟩ := h.exact
  rw [(hexact.foldl_addIp ips).isBlocked, hexact.isBlocked]
  exact Set.mem_union x blocked _

end IpFilter

open IpFilter

/-! ## Ranges with a mask below 24 -/

/-- `add_cidr` with a mask from 1 to 23 blocks the addresses of the range and no others exactly when every address of
the range but the one that is written was blocked already. -/
theorem wide_range_blocked_iff {filter : IpFilter} (hbuilt : Built filter) {address : Bytes} {ip : IpAddress} {mask : Nat}
    (hvalid : inetPton address = some ip) (hone : 1 ≤ mask) (hmask : mask ≤ 23) :
    ∃ filter', filter.addCidr (address ++ 47 :: decimal mask) = some filter' ∧
      (((∀ x, SameNetwork mask x ip → filter'.isBlocked x = true) ∧
          ∀ x, ¬ SameNetwork mask x ip → filter'.isBlocked x = true → filter.isBlocked x = true) ↔
        ∀ x, SameNetwork mask x ip → x ≠ ip → filter.isBlocked x = true) := by
  have hblocked : ∀ x, (filter.addIp ip).isBlocked x = true ↔ filter.isBlocked x = true ∨ x = ip := by
    intro x
    exact (hbuilt.isBlocked_foldl_addIp [ip] x).trans (or_congr_right List.mem_singleton)
  refine ⟨filter.addIp ip, ?_, ?_, ?_⟩
  · rw [addCidr_numeral hvalid (readDecimal_decimal mask) (by omega), if_neg (by omega), if_neg (by omega)]
  · rintro ⟨hrange, -⟩ x hx hne
    exact ((hblocked x).mp (hrange x hx)).resolve_right hne
  · intro hothers
    constructor
    · intro x hx
      rw [hblocked]
      by_cases hip : x = ip
      · exact .inr hip
      · exact .inl (hothers x hx hip)
    · intro x hx hadded
      refine ((hblocked x).mp hadded).resolve_right ?_
      rintro rfl
      exact hx fun i _ => rfl

/-- After `10.0.0.0/8` the address 10.0.0.1 is not blocked. -/
theorem wide_range_not_blocked :
    Built (IpFilter.new 1024) ∧ inetPton (ascii "10.0.0.0") = some (addressOf 10 0 0 0) ∧
      SameNetwork 8 (addressOf 10 0 0 1) (addressOf 10 0 0 0) ∧
      ∃ filter', (IpFilter.new 1024).addCidr (ascii "10.0.0.0/8") = some filter' ∧
        filter'.isBlocked (addressOf 10 0 0 1) = false := by
  refine ⟨.new (by decide), by decide, ?_, (IpFilter.new 1024).addIp (addressOf 10 0 0 0), rfl, by decide +kernel⟩
  show ∀ i < 8, _
  decide

/-- A filter that has both halves of `10.0.0.0/23`. -/
def halvesFilter : IpFilter :=
  (cidrRange (addressOf 10 0 1 0) 24).foldl IpFilter.addIp
    ((cidrRange (addressOf 10 0 0 0) 24).foldl IpFilter.addIp (IpFilter.new 1024))

/-- Where both halves are blocked already, the whole is blocked when it is added. -/
theorem wide_range_of_blocked_halves :
    ∃ filter', halvesFilter.addCidr (dotted 10 0 0 0 ++ 47 :: decimal 23) = some filter' ∧
      ∀ x, SameNetwork 23 x (addressOf 10 0 0 0) → filter'.isBlocked x = true := by
  have hnew : Built (IpFilter.new 1024) := .new (by decide)
  have hadd : ∀ (c : UInt8) (filter : IpFilter), filter.addCidr (dotted 10 0 c 0 ++ 47 :: decimal 24) =
      some ((cidrRange (addressOf 10 0 c.toNat 0) 24).foldl IpFilter.addIp filter) := by
    intro c filter
    exact addCidr_numeral (inetPton_dotted 10 0 c 0) (readDecimal_decimal 24) (by decide) filter
  have hlow : Built ((cidrRange (addressOf 10 0 0 0) 24).foldl IpFilter.addIp (IpFilter.new 1024)) :=
    hnew.addCidr (hadd 0 _)
  have hbuilt : Built halvesFilter := hlow.addCidr (hadd 1 _)
  obtain ⟨filter', hwhole, hiff⟩ := wide_range_blocked_iff hbuilt (inetPton_dotted 10 0 0 0)
    (show 1 ≤ 23 by decide) (by decide)
  refine ⟨filter', hwhole, (hiff.mpr ?_).1⟩
  intro x hx _
  rw [halvesFilter, hlow.isBlocked_foldl_addIp, hnew.isBlocked_foldl_addIp, mem_cidrRange _ (by decide),
    mem_cidrRange _ (by decide)]
  -- the bit behind the common ones says in which half the address is
  have hsame : ∀ i < 23, (addressOf 10 0 0 0).getMsbD i = (addressOf 10 0 1 0).getMsbD i := by decide
  cases hbit : x.getMsbD 23 with
  | false =>
    refine .inl (.inr fun i hi => ?_)
    rcases Nat.lt_succ_iff_lt_or_eq.mp hi with hi | rfl
    · exact hx i hi
    · rw [hbit]; decide
  | true =>
    refine .inr fun i hi => ?_
    rcases Nat.lt_succ_iff_lt_or_eq.mp hi with hi | rfl
    · rw [hx i hi]; exact hsame i hi
    · rw [hbit]; decide

/-! ## Lines of the file -/

/-- The text before the first slash of a line. -/
def addressText (line : Bytes) : Bytes := line.takeWhile (· ≠ 47)

/-- The text behind it, if the line has one. -/
def maskText (line : Bytes) : Option Bytes :=
  match line.dropWhile (· ≠ 47) with
  | [] => none
  | _ :: mask => some mask

/-- A valid address, alone or with a slash and a numeral up to 32 behind it. -/
def wellFormedLine (line : Bytes) : Bool :=
  (inetPton (addressText line)).isSome && (maskText line).all fun mask => (readDecimal mask).any fun m => m ≤ 32

/-- A blank line, a comment, a line without a slash, or one with a number behind the slash, whatever follows it, that
is an `int`. -/
def Readable (line : Bytes) : Prop :=
  line = [] ∨ line.head? = some 35 ∨ ∀ mask, maskText line = some mask → FitsInt mask

/-- The addresses a line stands for when the address is read up to the first null and the mask up to the first byte
that is no digit. -/
def Names (line : Bytes) (x : IpAddress) : Prop :=
  ∃ ip, inetPton (cString (addressText line)) = some ip ∧
    ((maskText line = none ∧ x = ip) ∨
      ∃ mask, maskText line = some mask ∧
        ((1 ≤ signedNumber mask ∧ signedNumber mask ≤ 23 ∧ x = ip) ∨
          (24 ≤ signedNumber mask ∧ signedNumber mask ≤ 32 ∧ SameNetwork (signedNumber mask).toNat x ip)))

/-- A well-formed line is read. -/
theorem readable_of_wellFormedLine {line : Bytes} (h : wellFormedLine line = true) : Readable line := by
  refine .inr (.inr fun mask hmask => ?_)
  rw [wellFormedLine, hmask, Bool.and_eq_true, Option.all_some, Option.any_eq_true] at h
  obtain ⟨-, m, hread, hm⟩ := h
  exact fitsInt_of_readDecimal hread (Nat.le_trans (of_decide_eq_true hm) (by decide))

/-- What a line stands for, once its address is read. -/
theorem names_iff {line : Bytes} {ip : IpAddress} (hip : inetPton (cString (addressText line)) = some ip)
    (x : IpAddress) :
    Names line x ↔
      (maskText line = none ∧ x = ip) ∨
        ∃ mask, maskText line = some mask ∧
          ((1 ≤ signedNumber mask ∧ signedNumber mask ≤ 23 ∧ x = ip) ∨
            (24 ≤ signedNumber mask ∧ signedNumber mask ≤ 32 ∧ SameNetwork (signedNumber mask).toNat x ip)) := by
  constructor
  · rintro ⟨ip', hip', h⟩
    rw [hip] at hip'
    cases hip'
    exact h
  · intro h
    exact ⟨ip, hip, h⟩

theorem not_names {line : Bytes} (hip : inetPton (cString (addressText line)) = none) (x : IpAddress) :
    ¬ Names line x := by
  rintro ⟨ip, hip', -⟩
  rw [hip] at hip'
  cases hip'

/-- A blank line and a comment stand for no address. -/
theorem not_names_of_skipped {line : Bytes} (h : line = [] ∨ line.head? = some 35) (x : IpAddress) : ¬ Names line x := by
  rintro ⟨ip, hip, -⟩
  rcases h with rfl | h
  · cases hip
  · obtain ⟨rest, rfl⟩ := List.head?_eq_some_iff.mp h
    have hmem : (35 : UInt8) ∈ cString (addressText (35 :: rest)) := by simp [cString, addressText]
    exact absurd (mem_of_inetPton hip 35 hmem) (by decide)

/-- Without a slash the text is an address or nothing. -/
theorem exists_addresses_of_address {line : Bytes} (hmask : maskText line = none) :
    ∃ ips : List IpAddress, (∀ filter : IpFilter, filter.addCidr line = some (ips.foldl IpFilter.addIp filter)) ∧
      ∀ x, x ∈ ips ↔ Names line x := by
  have hdrop : line.dropWhile (· ≠ 47) = [] := by
    unfold maskText at hmask
    split at hmask
    · assumption
    · cases hmask
  have htake : addressText line = line := by
    have happend := List.takeWhile_append_dropWhile (p := fun c : UInt8 => decide (c ≠ 47)) (l := line)
    rwa [hdrop, List.append_nil] at happend
  cases hip : inetPton (cString line) with
  | none =>
    refine ⟨[], fun filter => by simp only [addCidr, hdrop, hip, List.foldl_nil], fun x => ?_⟩
    simp [not_names (htake ▸ hip) x]
  | some ip =>
    refine ⟨[ip], fun filter => by simp only [addCidr, hdrop, hip, List.foldl_cons, List.foldl_nil], fun x => ?_⟩
    simp [names_iff (htake ▸ hip) x, hmask]

section Slash

variable {line mask : Bytes} (hmask : maskText line = some mask)

include hmask

theorem dropWhile_of_maskText : ∃ c, line.dropWhile (· ≠ 47) = c :: mask := by
  unfold maskText at hmask
  split at hmask
  · cases hmask
  · next c rest hdrop =>
    cases hmask
    exact ⟨c, hdrop⟩

/-- With a number behind the slash, the mask decides between nothing, the address and the range. -/
theorem exists_addresses_of_fitsInt (hfits : FitsInt mask) :
    ∃ ips : List IpAddress, (∀ filter : IpFilter, filter.addCidr line = some (ips.foldl IpFilter.addIp filter)) ∧
      ∀ x, x ∈ ips ↔ Names line x := by
  obtain ⟨c, hdrop⟩ := dropWhile_of_maskText hmask
  have hstoi := stoi_of_fitsInt hfits
  cases hip : inetPton (cString (line.takeWhile (· ≠ 47))) with
  | none =>
    refine ⟨[], fun filter => ?_, fun x => ?_⟩
    · simp only [addCidr, hdrop, hstoi, hip, Option.bind_eq_bind, Option.bind_some, List.foldl_nil]
    · simp [not_names hip x]
  | some ip =>
    have hnames : ∀ x, Names line x ↔
        (1 ≤ signedNumber mask ∧ signedNumber mask ≤ 23 ∧ x = ip) ∨
          (24 ≤ signedNumber mask ∧ signedNumber mask ≤ 32 ∧ SameNetwork (signedNumber mask).toNat x ip) := by
      intro x
      simp [names_iff hip x, hmask]
    simp only [addCidr, hdrop, hstoi, hip, hnames, Option.bind_eq_bind, Option.bind_some]
    by_cases hout : signedNumber mask ≤ 0 ∨ 32 < signedNumber mask
    · refine ⟨[], fun filter => by rw [if_pos hout, List.foldl_nil], fun x => ?_⟩
      simp only [List.not_mem_nil, false_iff]
      omega
    · by_cases hrange : 24 ≤ signedNumber mask
      · refine ⟨cidrRange ip (signedNumber mask).toNat, fun filter => by rw [if_neg hout, if_pos hrange], fun x => ?_⟩
        rw [mem_cidrRange ip (by omega)]
        constructor
        · intro hx
          exact .inr ⟨hrange, by omega, hx⟩
        · rintro (⟨-, h23, -⟩ | ⟨-, -, hx⟩)
          · omega
          · exact hx
      · refine ⟨[ip], fun filter => by rw [if_neg hout, if_neg hrange, List.foldl_cons, List.foldl_nil], fun x => ?_⟩
        rw [List.mem_singleton]
        constructor
        · intro hx
          exact .inl ⟨by omega, by omega, hx⟩
        · rintro (⟨-, -, hx⟩ | ⟨h24, -, -⟩)
          · exact hx
          · omega

theorem addCidr_of_not_fitsInt (hfits : ¬ FitsInt mask) (filter : IpFilter) : filter.addCidr line = none := by
  obtain ⟨c, hdrop⟩ := dropWhile_of_maskText hmask
  simp only [addCidr, hdrop, stoi_of_not_fitsInt hfits, Option.bind_eq_bind, Option.bind_none]

end Slash

/-- A line that can be read adds the addresses it stands for. -/
theorem exists_addresses_of_readable {line : Bytes} (h : Readable line) :
    ∃ ips : List IpAddress, (∀ filter : IpFilter, filter.addLine line = some (ips.foldl IpFilter.addIp filter)) ∧
      ∀ x, x ∈ ips ↔ Names line x := by
  by_cases hskip : line = [] ∨ line.head? = some 35
  · refine ⟨[], fun filter => if_pos hskip, fun x => ?_⟩
    simp [not_names_of_skipped hskip x]
  · have hfits : ∀ mask, maskText line = some mask → FitsInt mask := by
      rcases h with h | h | h
      · exact absurd (.inl h) hskip
      · exact absurd (.inr h) hskip
      · exact h
    simp only [addLine, if_neg hskip]
    cases hmask : maskText line with
    | none => exact exists_addresses_of_address hmask
    | some mask => exact exists_addresses_of_fitsInt hmask (hfits mask hmask)

/-- A line that cannot be read makes `stoi` throw. -/
theorem addLine_of_not_readable {line : Bytes} (h : ¬ Readable line) (filter : IpFilter) :
    filter.addLine line = none := by
  simp only [Readable, not_or, not_forall] at h
  obtain ⟨hne, hcomment, mask, hmask, hfits⟩ := h
  rw [addLine, if_neg (not_or.mpr ⟨hne, hcomment⟩)]
  exact addCidr_of_not_fitsInt hmask hfits filter

/-- Lines that can be read add the addresses they stand for. -/
theorem exists_addresses_of_forall_readable {lines : List Bytes} (h : ∀ line ∈ lines, Readable line) :
    ∃ ips : List IpAddress, (∀ filter, lines.foldlM IpFilter.addLine filter = some (ips.foldl IpFilter.addIp filter)) ∧
      ∀ x, x ∈ ips ↔ ∃ line ∈ lines, Names line x := by
  induction lines with
  | nil => exact ⟨[], fun filter => rfl, fun x => by simp⟩
  | cons line lines ih =>
    obtain ⟨first, hfirst, hmem⟩ := exists_addresses_of_readable (h line (by simp))
    obtain ⟨rest, hrest, hmem'⟩ := ih fun l hl => h l (List.mem_cons_of_mem _ hl)
    refine ⟨first ++ rest, fun filter => ?_, fun x => ?_⟩
    · rw [List.foldlM_cons, hfirst, List.foldl_append]
      exact hrest _
    · rw [List.mem_append, hmem, hmem']
      simp

/-- One line that cannot be read is enough for an exception. -/
theorem foldlM_addLine_of_not_readable {lines : List Bytes} {line : Bytes} (hline : line ∈ lines) (h : ¬ Readable line)
    (filter : IpFilter) : lines.foldlM IpFilter.addLine filter = none := by
  induction lines generalizing filter with
  | nil => exact absurd hline List.not_mem_nil
  | cons l lines ih =>
    rw [List.foldlM_cons]
    rcases List.mem_cons.mp hline with rfl | hline
    · rw [addLine_of_not_readable h]
      rfl
    · cases filter.addLine l with
      | none => rfl
      | some next => exact ih hline next

/-- What is blocked behind lines that can be read. -/
theorem exists_loaded_of_forall_readable {filter : IpFilter} (hbuilt : Built filter) {lines : List Bytes}
    (h : ∀ line ∈ lines, Readable line) :
    ∃ loaded : IpFilter, lines.foldlM IpFilter.addLine filter = some loaded ∧
      ∀ x, loaded.isBlocked x = true ↔ filter.isBlocked x = true ∨ ∃ line ∈ lines, Names line x := by
  obtain ⟨ips, hfold, hmem⟩ := exists_addresses_of_forall_readable h
  refine ⟨_, hfold filter, fun x => ?_⟩
  rw [hbuilt.isBlocked_foldl_addIp, hmem]

/-- The lines of a file that are well formed, and nothing else, decide what is blocked: loading the file ends, and
blocks what loading these lines alone blocks. -/
def LoadsWellFormed (filter : IpFilter) (text : Bytes) : Prop :=
  ∃ loaded alone, filter.init (some text) = some loaded ∧
    ((fileLines text).filter wellFormedLine).foldlM IpFilter.addLine filter = some alone ∧
    ∀ x, loaded.isBlocked x = alone.isBlocked x

/-- Lines that are not well formed change nothing exactly when each line that is no comment and has a slash has a
number behind it that is an `int`, and every address that a line which is not well formed is read as was blocked
before or stands in a well-formed line. -/
theorem bad_lines_harmless_iff {filter : IpFilter} (hbuilt : Built filter) (text : Bytes) :
    LoadsWellFormed filter text ↔
      (∀ line ∈ fileLines text, Readable line) ∧
        ∀ line ∈ fileLines text, wellFormedLine line = false → ∀ x, Names line x →
          filter.isBlocked x = true ∨ ∃ good ∈ fileLines text, wellFormedLine good = true ∧ Names good x := by
  have hgood : ∀ line ∈ (fileLines text).filter wellFormedLine, Readable line := by
    intro line hline
    exact readable_of_wellFormedLine (List.mem_filter.mp hline).2
  obtain ⟨alone, halone, hblockedAlone⟩ := exists_loaded_of_forall_readable hbuilt hgood
  simp only [List.mem_filter, and_assoc] at hblockedAlone
  constructor
  · rintro ⟨loaded, alone', hloaded, halone', hsame⟩
    rw [halone] at halone'
    cases halone'
    have hread : ∀ line ∈ fileLines text, Readable line := by
      intro line hline
      by_contra hnot
      rw [IpFilter.init, foldlM_addLine_of_not_readable hline hnot] at hloaded
      cases hloaded
    obtain ⟨loaded', hloaded', hblocked⟩ := exists_loaded_of_forall_readable hbuilt hread
    rw [IpFilter.init, hloaded'] at hloaded
    cases hloaded
    refine ⟨hread, fun line hline _ x hx => ?_⟩
    rw [← hblockedAlone, ← hsame, hblocked]
    exact .inr ⟨line, hline, hx⟩
  · rintro ⟨hread, hcovered⟩
    obtain ⟨loaded, hloaded, hblocked⟩ := exists_loaded_of_forall_readable hbuilt hread
    refine ⟨loaded, alone, hloaded, halone, fun x => ?_⟩
    rw [Bool.eq_iff_iff, hblocked, hblockedAlone]
    constructor
    · rintro (hbefore | ⟨line, hline, hnames⟩)
      · exact .inl hbefore
      · cases hform : wellFormedLine line with
        | true => exact .inr ⟨line, hline, hform, hnames⟩
        | false => exact hcovered line hline hform x hnames
    · rintro (hbefore | ⟨line, hline, -, hnames⟩)
      · exact .inl hbefore
      · exact .inr ⟨line, hline, hnames⟩

/-- A line without a number behind the slash before one that is well formed. -/
def badMaskFile : Bytes := ascii "1.2.3.4/x\n5.6.7.8\n"

/-- Nothing is loaded, though the second line is well formed. -/
theorem bad_mask_stops_load :
    Built (IpFilter.new 1024) ∧ (IpFilter.new 1024).init (some badMaskFile) = none ∧
      ¬ LoadsWellFormed (IpFilter.new 1024) badMaskFile := by
  have hnone : (IpFilter.new 1024).init (some badMaskFile) = none := by decide +kernel
  refine ⟨.new (by decide), hnone, ?_⟩
  rintro ⟨loaded, alone, hloaded, -⟩
  rw [hnone] at hloaded
  cases hloaded

/-- Comments, blank lines and lines that are no addresses, around one that is. -/
def mixedFile : Bytes := ascii "# list\n\n5.6.7.8\nhost\n5.6.7.8/99\n"

theorem bad_lines_harmless_in_mixedFile : LoadsWellFormed (IpFilter.new 1024) mixedFile := by
  have hlines : ∀ line ∈ fileLines mixedFile,
      line = [] ∨ line.head? = some 35 ∨ (maskText line).all (fun mask => decide (FitsInt mask)) = true := by decide
  have hnames : ∀ line ∈ fileLines mixedFile, wellFormedLine line = false →
      inetPton (cString (addressText line)) = none ∨
        (maskText line).any (fun mask => decide (32 < signedNumber mask)) = true := by decide
  refine (bad_lines_harmless_iff (.new (by decide)) mixedFile).mpr ⟨?_, ?_⟩
  · intro line hline
    refine (hlines line hline).imp_right (Or.imp_right fun hall mask hmask => ?_)
    rw [hmask] at hall
    exact of_decide_eq_true hall
  · intro line hline hbad x hx
    rcases hnames line hline hbad with hnone | hlarge
    · exact absurd hx (not_names hnone x)
    · rw [Option.any_eq_true] at hlarge
      obtain ⟨mask, hmask, hlarge⟩ := hlarge
      have hlarge := of_decide_eq_true hlarge
      obtain ⟨ip, -, ⟨hno, -⟩ | ⟨mask', hmask', h⟩⟩ := hx
      · rw [hmask] at hno
        cases hno
      · rw [hmask] at hmask'
        cases hmask'
        omega

end HpServer
