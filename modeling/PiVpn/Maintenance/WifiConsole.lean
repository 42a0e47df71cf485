import PiVpn.App.Terse
import PiVpn.Lib.Shell
import PiVpn.Maintenance.Updates
import PiVpn.Maintenance.WgGuard

/-! The list of networks on the recovery console. The script splits the scan at its colons and
keeps the strongest entry of each name in two arrays, where the web page reads the escapes of
the same output back. -/

namespace WifiConsole
open Text Shell Ipaddress Commands Effect
open Maintenance (orDefault)

/-! ## What the shell does with text -/

structure Row where
  ssid : Text
  signal : Text
  security : Text

/-- `IFS=: read -r ssid signal security`. -/
def readRow (line : Text) : Row :=
  let (ssid, rest) := readWord ':' line
  let (signal, rest) := readWord ':' rest
  ⟨ssid, signal, readRest ':' rest⟩

/-- A number as `test` reads it: 64 bits, between blanks. -/
def testNumber (t : Text) : Option Int :=
  let body := t.dropWhile Maintenance.isAsciiSpace
  let negative := body.head? = some '-'
  let body := if negative ∨ body.head? = some '+' then body.tail else body
  let digits := body.takeWhile Char.isDigit
  let value : Int := if negative then -(natOfDigits digits) else natOfDigits digits
  if digits ≠ [] ∧ (body.dropWhile Char.isDigit).all (fun c => c = ' ' || c = '\t') ∧
    -2 ^ 63 ≤ value ∧ value < 2 ^ 63 then some value
  else none

/-- `[ a -gt b ]`; what is no number fails. -/
def testGt (a b : Text) : Bool :=
  match testNumber a, testNumber b with
  | some m, some n => n < m
  | _, _ => false

/-! ## The menu -/

/-- `best_signal` and `best_security`. -/
structure Best where
  signal : List (Text × Text)
  security : List (Text × Text)

def zeroWord : Text := ['0']

def openWord : Text := "open".toList

/-- One turn of the loop in `wifi_menu_scan_and_connect`. -/
def keepStrongest (best : Best) (line : Text) : Best :=
  let row := readRow line
  if row.ssid = [] then best
  else
    let prev := (best.signal.lookup row.ssid).getD []
    if prev = [] ∨ testGt (orDefault row.signal zeroWord) prev then
      ⟨Dict.put best.signal row.ssid (orDefault row.signal zeroWord),
        Dict.put best.security row.ssid (orDefault row.security openWord)⟩
    else best

def description (signal security : Text) : Text :=
  "signal ".toList ++ (signal ++ ("% • ".toList ++ security))

/-- The tags and descriptions of the menu; the shell lists the names of an array in any order. -/
def menuItems (order : List Text → List Text) (best : Best) : List (Text × Text) :=
  (order (best.signal.map Prod.fst)).map fun ssid =>
    (ssid, description ((best.signal.lookup ssid).getD []) ((best.security.lookup ssid).getD []))

/-- What `wifi_menu_scan_and_connect` offers for the output of a scan. -/
def offered (order : List Text → List Text) (output : Text) : List (Text × Text) :=
  let raw := captured output
  if raw = [] then [] else menuItems order ((raw.splitOn '\n').foldl keepStrongest ⟨[], []⟩)

/-! ## What a scan prints -/

def isSecurityChar (c : Char) : Bool := c.isAlphanum || c = ' ' || c = '.' || c = '-'

/-- One row of the scan: a percentage that may be missing, and the words for the security. -/
structure Scanned where
  ssid : Text
  signal : Option Nat
  security : Text
  ssidOk : ∀ c ∈ ssid, isLineBreak c = false
  signalOk : ∀ n ∈ signal, n ≤ 100
  securityOk : ∀ c ∈ security, isSecurityChar c = true
  notNumber : security ≠ [] → security.all Char.isDigit = false

theorem ascii_of_isSecurityChar {c : Char} (h : isSecurityChar c = true) : 32 ≤ c.toNat ∧ c.toNat < 128 := by
  rw [isSecurityChar] at h
  simp only [Char.isAlphanum, Char.isAlpha, Char.isUpper, Char.isLower, Char.isDigit, Bool.or_eq_true,
    Bool.and_eq_true, decide_eq_true_eq, UInt32.le_iff_toNat_le, ge_iff_le] at h
  rcases h with ((((h | h) | h) | rfl) | rfl) | rfl
  · exact ⟨le_trans (by decide) h.1, lt_of_le_of_lt h.2 (by decide)⟩
  · exact ⟨le_trans (by decide) h.1, lt_of_le_of_lt h.2 (by decide)⟩
  · exact ⟨le_trans (by decide) h.1, lt_of_le_of_lt h.2 (by decide)⟩
  all_goals decide

theorem isSecurityChar_of_isDigit {c : Char} (h : c.isDigit = true) : isSecurityChar c = true := by
  simp [isSecurityChar, Char.isAlphanum, h]

def Scanned.signalText (n : Scanned) : Text := (n.signal.map decimal).getD []

def Scanned.fields (n : Scanned) : List Text := [n.ssid, n.signalText, n.security]

def scanned (ns : List Scanned) : Text := terse (ns.map Scanned.fields)

/-- A name that needs no escape. -/
def PlainName (ssid : Text) : Prop := ':' ∉ ssid ∧ '\\' ∉ ssid

/-! ## Both readers on one row -/

def Scanned.network (n : Scanned) : WifiNetwork := ⟨n.ssid, n.signal.getD 0, orDefault n.security openWord⟩

/-- How a name that ends in a backslash reads: it takes the signal with it. -/
def Scanned.joined (n : Scanned) : Text :=
  replacePair '\\' '\\' '\\' (replacePair '\\' ':' ':' (escape n.ssid ++ ':' :: n.signalText))

instance (f : Text) : Decidable (EndsInBackslash f) := inferInstanceAs (Decidable (f.getLast? = some '\\'))

/-- What the web page makes of a row; nothing of a row without a name. -/
def Scanned.shown (n : Scanned) : Option WifiNetwork :=
  if EndsInBackslash n.ssid then some ⟨n.joined, 0, openWord⟩
  else if n.ssid = [] then none
  else some n.network

def strongest (ns : List Scanned) : List WifiNetwork := (ns.filterMap Scanned.shown).foldl keepBest []

theorem escape_plain {f : Text} (h : PlainName f) : escape f = f := by
  induction f with
  | nil => rfl
  | cons c f ih =>
    obtain ⟨hcolon, hback⟩ := h
    rw [List.mem_cons, not_or] at hcolon hback
    have hc : c ≠ '\\' := fun heq => hback.1 heq.symm
    have hc' : c ≠ ':' := fun heq => hcolon.1 heq.symm
    rw [escape, List.flatMap_cons, ← escape, ih ⟨hcolon.2, hback.2⟩, escapeChar, if_neg hc, if_neg hc',
      List.singleton_append]

theorem plain_signalText (n : Scanned) : PlainName n.signalText := by
  rw [Scanned.signalText]
  cases n.signal with
  | none => exact ⟨List.not_mem_nil, List.not_mem_nil⟩
  | some s => exact ⟨not_mem_decimal (by decide), not_mem_decimal (by decide)⟩

theorem plain_security (n : Scanned) : PlainName n.security := by
  constructor
  · intro hmem
    have := n.securityOk _ hmem
    simp [isSecurityChar] at this
  · intro hmem
    have := n.securityOk _ hmem
    simp [isSecurityChar] at this

theorem terseRow_fields (n : Scanned) :
    terseRow n.fields = escape n.ssid ++ ':' :: (n.signalText ++ ':' :: n.security) := by
  rw [Scanned.fields, terseRow_cons _ (by simp), terseRow_cons _ (by simp), escape_plain (plain_signalText n),
    terseRow, List.map_singleton, List.intercalate_singleton, escape_plain (plain_security n)]

/-! ## The web page -/

def unescape (f : Text) : Text := replacePair '\\' '\\' '\\' (replacePair '\\' ':' ':' f)

/-- The row that the web page works on. -/
def Scanned.pageRow (n : Scanned) : List Text := (splitFieldsFrom [] (terseRow n.fields)).map unescape

theorem not_endsInBackslash {f : Text} (h : '\\' ∉ f) : ¬ EndsInBackslash f :=
  fun hends => h (List.mem_of_getLast? hends)

theorem pageRow_plain {n : Scanned} (h : ¬ EndsInBackslash n.ssid) : n.pageRow = n.fields := by
  have hfields : ∀ f ∈ n.fields.dropLast, ¬ EndsInBackslash f := by
    intro f hf
    simp only [Scanned.fields, List.dropLast_cons_cons, List.dropLast_singleton, List.mem_cons,
      List.not_mem_nil, or_false] at hf
    rcases hf with rfl | rfl
    · exact h
    · exact not_endsInBackslash (plain_signalText n).2
  rw [Scanned.pageRow, split_terseRow (by simp [Scanned.fields]) hfields, List.map_map]
  exact (List.map_congr_left fun f _ => unescape_escape f).trans (List.map_id _)

theorem pageRow_joined {n : Scanned} (h : EndsInBackslash n.ssid) : n.pageRow = [n.joined, n.security] := by
  have hhead : (escape n.ssid).reverse.head? = some '\\' := head?_reverse_escape n.ssid |>.mpr h
  have hsignal : escape n.signalText = n.signalText := escape_plain (plain_signalText n)
  have hsecurity : escape n.security = n.security := escape_plain (plain_security n)
  have hnext : ¬ (n.signalText.reverse ++ ':' :: (escape n.ssid).reverse).head? = some '\\' := by
    rcases List.eq_nil_or_concat' n.signalText with hnil | ⟨f, c, hcons⟩
    · simp [hnil]
    · have hc : c ≠ '\\' := fun hc => (plain_signalText n).2 (by rw [hcons, hc]; simp)
      simp [hcons, hc]
  have hlast : splitFieldsFrom [] n.security = [n.security] := by
    have hsplit := splitFieldsFrom_escape [] n.security []
    rw [hsecurity, List.append_nil, List.append_nil] at hsplit
    rw [hsplit, splitFieldsFrom, List.reverse_reverse]
  have hsplit : splitFieldsFrom [] (terseRow n.fields) =
      [escape n.ssid ++ ':' :: n.signalText, n.security] := by
    have hword := splitFieldsFrom_escape (':' :: (escape n.ssid).reverse) n.signalText (':' :: n.security)
    rw [hsignal] at hword
    rw [terseRow_fields, splitFieldsFrom_escape, List.append_nil, splitFieldsFrom_colon, if_pos hhead, hword,
      splitFieldsFrom_colon, if_neg hnext, hlast]
    simp
  rw [Scanned.pageRow, hsplit, List.map_cons, List.map_singleton]
  have hkept : unescape n.security = n.security := by
    have := unescape_escape n.security
    rwa [hsecurity] at this
  rw [hkept]
  rfl

/-- Unicode digits are the usual ones among the ASCII characters. -/
structure ReadsAscii (digits : Digits) : Prop where
  isDigit : ∀ c : Char, c.toNat < 128 → digits.isDigit c = c.isDigit
  value : ∀ c : Char, c.isDigit = true → digits.value c = some (c.toNat - 48)

theorem colon_mem_replacePair {a b new : Char} {t : Text} (hnew : a = ':' ∨ b = ':' → new = ':') (h : ':' ∈ t) :
    ':' ∈ replacePair a b new t := by
  induction t using replacePair.induct a b with
  | case1 x y cs hpair ih =>
    rw [replacePair, if_pos hpair]
    rcases List.mem_cons.mp h with hx | h
    · rw [hnew (.inl (hpair.1 ▸ hx.symm))]
      exact List.mem_cons_self
    · rcases List.mem_cons.mp h with hy | h
      · rw [hnew (.inr (hpair.2 ▸ hy.symm))]
        exact List.mem_cons_self
      · exact List.mem_cons_of_mem _ (ih h)
  | case2 x y cs hpair ih =>
    rw [replacePair, if_neg hpair]
    rcases List.mem_cons.mp h with hx | h
    · exact hx ▸ List.mem_cons_self
    · exact List.mem_cons_of_mem _ (ih h)
  | case3 t ht =>
    rw [replacePair]
    · exact h
    · exact ht

theorem colon_mem_joined (n : Scanned) : ':' ∈ n.joined := by
  apply colon_mem_replacePair (by simp)
  apply colon_mem_replacePair (by simp)
  simp

section
variable {digits : Digits} (hdigits : ReadsAscii digits)
include hdigits

theorem mapM_value {t : Text} (h : ∀ c ∈ t, c.isDigit = true) :
    t.mapM digits.value = some (t.map fun c => c.toNat - 48) := by
  induction t with
  | nil => rfl
  | cons c t ih =>
    obtain ⟨hc, ht⟩ := List.forall_mem_cons.mp h
    rw [List.mapM_cons, hdigits.value c hc, ih ht]
    rfl

theorem intOf_decimal {n : Nat} (h : n ≤ 100) : intOf digits (decimal n) = some n := by
  have hall : ∀ n ≤ 100, (decimal n).length ≤ 4300 ∧ natOfDigits (decimal n) = n := by decide +kernel
  obtain ⟨hlength, hvalue⟩ := hall n h
  have hmap := mapM_value hdigits fun c hc => isDigit_of_mem_decimal (n := n) hc
  rw [intOf, if_pos hlength, hmap, Option.map_some, List.foldl_map]
  exact congrArg some hvalue

theorem all_isDigit {t : Text} (h : ∀ c ∈ t, c.toNat < 128) : t.all digits.isDigit = t.all Char.isDigit := by
  induction t with
  | nil => rfl
  | cons c t ih =>
    obtain ⟨hc, ht⟩ := List.forall_mem_cons.mp h
    rw [List.all_cons, List.all_cons, hdigits.isDigit c hc, ih ht]

theorem strength_signal (n : Scanned) :
    (if n.signalText ≠ [] ∧ n.signalText.all digits.isDigit = true then intOf digits n.signalText else some 0) =
      some (n.signal.getD 0) := by
  rw [Scanned.signalText]
  cases hn : n.signal with
  | none => rfl
  | some s =>
    have hdigit : ∀ c ∈ decimal s, c.isDigit = true := fun c hc => isDigit_of_mem_decimal hc
    have hall : (decimal s).all digits.isDigit = true := by
      rw [all_isDigit hdigits fun c hc => (ascii_of_isSecurityChar (isSecurityChar_of_isDigit (hdigit c hc))).2]
      exact List.all_eq_true.mpr hdigit
    rw [Option.map_some, Option.getD_some, if_pos ⟨Nat.toDigits_ne_nil, hall⟩,
      intOf_decimal hdigits (n.signalOk s hn)]
    rfl

theorem strength_security (n : Scanned) :
    (if n.security ≠ [] ∧ n.security.all digits.isDigit = true then intOf digits n.security else some 0) =
      some 0 := by
  rw [if_neg]
  rintro ⟨hne, hall⟩
  rw [all_isDigit hdigits fun c hc => (ascii_of_isSecurityChar (n.securityOk c hc)).2, n.notNumber hne] at hall
  cases hall

theorem scanRows_cons (best : List WifiNetwork) (n : Scanned) (rows : List (List Text)) :
    scanRows digits best (n.pageRow :: rows) = scanRows digits (n.shown.toList.foldl keepBest best) rows := by
  rw [scanRows, Scanned.shown]
  by_cases hends : EndsInBackslash n.ssid
  · have hne : n.joined ≠ [] := List.ne_nil_of_mem (colon_mem_joined n)
    have hstrength := strength_security hdigits n
    rw [pageRow_joined hends, if_pos hends]
    simp only [List.getD_cons_zero, List.getD_cons_succ, List.getD_nil, hstrength]
    rw [if_neg hne, if_pos trivial]
    rfl
  · rw [pageRow_plain hends, if_neg hends, Scanned.fields]
    have hstrength := strength_signal hdigits n
    simp only [List.getD_cons_zero, List.getD_cons_succ, hstrength]
    by_cases hssid : n.ssid = []
    · rw [if_pos hssid, if_pos hssid]
      rfl
    · rw [if_neg hssid, if_neg hssid]
      rfl

/-- The web page shows the strongest entry of each name. -/
theorem scanRows_pages (best : List WifiNetwork) (ns : List Scanned) :
    scanRows digits best (ns.map Scanned.pageRow) =
      pure ((ns.filterMap Scanned.shown).foldl keepBest best) := by
  induction ns generalizing best with
  | nil => rfl
  | cons n ns ih =>
    rw [List.map_cons, scanRows_cons hdigits, ih, List.filterMap_cons]
    cases n.shown with
    | none => rfl
    | some shown => rfl

end

/-! ## The console -/

/-- The arrays that hold a list of networks. -/
def tableOf (gs : List WifiNetwork) : Best :=
  ⟨gs.map fun g => (g.ssid, decimal g.signal), gs.map fun g => (g.ssid, g.security)⟩

theorem testGt_decimal {m n : Nat} (hm : m ≤ 100) (hn : n ≤ 100) :
    testGt (decimal m) (decimal n) = decide (n < m) := by
  have hall : ∀ n ≤ 100, testNumber (decimal n) = some (n : Int) := by decide +kernel
  rw [testGt, hall m hm, hall n hn]
  simp

theorem colon_not_mem_escape {f : Text} (h : ':' ∉ f) : ':' ∉ escape f := by
  intro hmem
  obtain ⟨c, hc, hmem⟩ := List.mem_flatMap.mp hmem
  have hne : c ≠ ':' := fun heq => h (heq ▸ hc)
  rw [escapeChar] at hmem
  split at hmem
  · simp at hmem
  · exact hne (List.mem_singleton.mp hmem).symm

theorem readRow_fields {n : Scanned} (h : ':' ∉ n.ssid) :
    readRow (terseRow n.fields) = ⟨escape n.ssid, n.signalText, n.security⟩ := by
  rw [readRow, terseRow_fields, readWord_append_cons (colon_not_mem_escape h)]
  dsimp only
  rw [readWord_append_cons (plain_signalText n).1]
  dsimp only
  rw [readRest_of_not_mem (plain_security n).1]

theorem orDefault_signalText (n : Scanned) : orDefault n.signalText zeroWord = decimal (n.signal.getD 0) := by
  rw [Scanned.signalText]
  cases n.signal with
  | none => rfl
  | some s => exact if_neg Nat.toDigits_ne_nil

/-- The networks on a list: no name twice, and percentages. -/
structure Listed (gs : List WifiNetwork) : Prop where
  nodup : (gs.map WifiNetwork.ssid).Nodup
  signal : ∀ g ∈ gs, g.signal ≤ 100

theorem names_replace (gs : List WifiNetwork) (g : WifiNetwork) :
    (gs.map fun o => if o.ssid = g.ssid then g else o).map WifiNetwork.ssid = gs.map WifiNetwork.ssid := by
  rw [List.map_map]
  apply List.map_congr_left
  intro o _
  rw [Function.comp_apply]
  split
  · next h => exact h.symm
  · rfl

theorem Listed.keepBest {gs : List WifiNetwork} (h : Listed gs) {g : WifiNetwork} (hg : g.signal ≤ 100) :
    Listed (keepBest gs g) := by
  rw [Commands.keepBest]
  split
  · next hfind =>
    have hnew : g.ssid ∉ gs.map WifiNetwork.ssid := by
      intro hmem
      obtain ⟨o, ho, heq⟩ := List.mem_map.mp hmem
      simpa [heq] using List.find?_eq_none.mp hfind o ho
    constructor
    · rw [List.map_append, List.map_singleton, List.nodup_append]
      refine ⟨h.nodup, List.nodup_singleton _, fun a ha b hb heq => hnew ?_⟩
      rwa [← List.mem_singleton.mp hb, ← heq]
    · exact List.forall_mem_append.mpr ⟨h.signal, List.forall_mem_singleton.mpr hg⟩
  · split
    · constructor
      · rw [names_replace]
        exact h.nodup
      · intro o ho
        obtain ⟨o', ho', rfl⟩ := List.mem_map.mp ho
        split
        · exact hg
        · exact h.signal o' ho'
    · exact h

theorem network_signal (n : Scanned) : n.network.signal ≤ 100 := by
  rw [Scanned.network]
  cases hn : n.signal with
  | none => exact Nat.zero_le 100
  | some s => exact n.signalOk s hn

theorem shown_plain {n : Scanned} (h : PlainName n.ssid) :
    n.shown = if n.ssid = [] then none else some n.network := by
  rw [Scanned.shown, if_neg (not_endsInBackslash h.2)]

theorem put_tableOf_new {gs : List WifiNetwork} {g : WifiNetwork} (h : g.ssid ∉ gs.map WifiNetwork.ssid) :
    (⟨Dict.put (tableOf gs).signal g.ssid (decimal g.signal),
      Dict.put (tableOf gs).security g.ssid g.security⟩ : Best) = tableOf (gs ++ [g]) := by
  have hsignal := Dict.put_map_new (f := fun g : WifiNetwork => decimal g.signal) h
  have hsecurity := Dict.put_map_new (f := WifiNetwork.security) h
  exact congrArg₂ Best.mk hsignal hsecurity

theorem put_tableOf_old {gs : List WifiNetwork} {g : WifiNetwork} (hnodup : (gs.map WifiNetwork.ssid).Nodup)
    (h : g.ssid ∈ gs.map WifiNetwork.ssid) :
    (⟨Dict.put (tableOf gs).signal g.ssid (decimal g.signal),
      Dict.put (tableOf gs).security g.ssid g.security⟩ : Best) =
      tableOf (gs.map fun o => if o.ssid = g.ssid then g else o) := by
  have hsignal := Dict.put_map_old (f := fun g : WifiNetwork => decimal g.signal) hnodup h
  have hsecurity := Dict.put_map_old (f := WifiNetwork.security) hnodup h
  exact congrArg₂ Best.mk hsignal hsecurity

/-- On a plain name both readers take the same step. -/
theorem keepStrongest_tableOf {gs : List WifiNetwork} (h : Listed gs) {n : Scanned} (hn : PlainName n.ssid) :
    keepStrongest (tableOf gs) (terseRow n.fields) = tableOf (n.shown.toList.foldl keepBest gs) := by
  rw [keepStrongest, readRow_fields hn.1, shown_plain hn, escape_plain hn]
  dsimp only
  by_cases hssid : n.ssid = []
  · rw [if_pos hssid, if_pos hssid]
    rfl
  · have hlookup : (tableOf gs).signal.lookup n.ssid =
        (gs.find? (·.ssid = n.ssid)).map fun g => decimal g.signal := Dict.lookup_map_key n.ssid
    have hstep : (some n.network).toList.foldl keepBest gs = keepBest gs n.network := rfl
    have hkey : n.network.ssid = n.ssid := rfl
    rw [if_neg hssid, if_neg hssid, hstep, orDefault_signalText, hlookup, keepBest, hkey]
    cases hfind : gs.find? (·.ssid = n.ssid) with
    | none =>
      have hnew : n.network.ssid ∉ gs.map WifiNetwork.ssid := by
        intro hmem
        obtain ⟨o, ho, heq⟩ := List.mem_map.mp hmem
        have hne := List.find?_eq_none.mp hfind o ho
        exact hne (decide_eq_true heq)
      rw [if_pos (.inl rfl)]
      exact put_tableOf_new hnew
    | some old =>
      have hmem := List.mem_of_find?_eq_some hfind
      have hold : n.network.ssid ∈ gs.map WifiNetwork.ssid := by
        have hsame : old.ssid = n.ssid := of_decide_eq_true (List.find?_some hfind :)
        exact List.mem_map.mpr ⟨old, hmem, hsame⟩
      have hgt : testGt (decimal (n.signal.getD 0)) (decimal old.signal) =
          decide (old.signal < n.network.signal) :=
        testGt_decimal (network_signal n) (h.signal old hmem)
      have hprev : decimal old.signal ≠ [] := Nat.toDigits_ne_nil
      rw [Option.map_some, Option.getD_some, hgt]
      dsimp only
      by_cases hless : old.signal < n.network.signal
      · rw [if_pos (.inr (decide_eq_true hless)), if_pos hless]
        exact put_tableOf_old h.nodup hold
      · rw [if_neg (not_or.mpr ⟨hprev, by simpa using hless⟩), if_neg hless]

theorem Listed.shown {gs : List WifiNetwork} (h : Listed gs) (n : Scanned) :
    Listed (n.shown.toList.foldl Commands.keepBest gs) := by
  rw [Scanned.shown]
  split
  · exact h.keepBest (Nat.zero_le 100)
  · split
    · exact h
    · exact h.keepBest (network_signal n)

theorem foldl_shown (n : Scanned) (ns : List Scanned) (gs : List WifiNetwork) :
    ((n :: ns).filterMap Scanned.shown).foldl keepBest gs =
      (ns.filterMap Scanned.shown).foldl keepBest (n.shown.toList.foldl keepBest gs) := by
  rw [List.filterMap_cons]
  cases n.shown with
  | none => rfl
  | some shown => rfl

theorem listed_strongest (ns : List Scanned) : Listed (strongest ns) := by
  have hall : ∀ gs, Listed gs → Listed ((ns.filterMap Scanned.shown).foldl keepBest gs) := by
    induction ns with
    | nil => exact fun _ h => h
    | cons n ns ih =>
      intro gs h
      rw [foldl_shown]
      exact ih _ (h.shown n)
  exact hall [] ⟨List.nodup_nil, by simp⟩

/-- The rows of the scan, as the loop of the script takes them. -/
def table (ns : List Scanned) : Best :=
  (ns.map fun n => terseRow n.fields).foldl keepStrongest ⟨[], []⟩

theorem table_eq {ns : List Scanned} (h : ∀ n ∈ ns, PlainName n.ssid) : table ns = tableOf (strongest ns) := by
  have hall : ∀ gs, Listed gs → (ns.map fun n => terseRow n.fields).foldl keepStrongest (tableOf gs) =
      tableOf ((ns.filterMap Scanned.shown).foldl keepBest gs) := by
    induction ns with
    | nil => exact fun _ _ => rfl
    | cons n ns ih =>
      obtain ⟨hn, hns⟩ := List.forall_mem_cons.mp h
      intro gs hgs
      rw [List.map_cons, List.foldl_cons, keepStrongest_tableOf hgs hn, foldl_shown]
      exact ih hns _ (hgs.shown n)
  exact hall [] ⟨List.nodup_nil, by simp⟩

theorem lineBreak_fields (n : Scanned) : ∀ f ∈ n.fields, ∀ c ∈ f, isLineBreak c = false := by
  have hword : ∀ c, isSecurityChar c = true → isLineBreak c = false := by
    intro c hc
    have hascii := ascii_of_isSecurityChar hc
    simp [isLineBreak]
    omega
  have hsignal : ∀ c ∈ n.signalText, isLineBreak c = false := by
    intro c hc
    rw [Scanned.signalText] at hc
    cases hn : n.signal with
    | none => simp [hn] at hc
    | some s =>
      rw [hn, Option.map_some, Option.getD_some] at hc
      exact hword c (isSecurityChar_of_isDigit (isDigit_of_mem_decimal hc))
  rw [Scanned.fields, List.forall_mem_cons, List.forall_mem_cons, List.forall_mem_singleton]
  exact ⟨n.ssidOk, hsignal, fun c hc => hword c (n.securityOk c hc)⟩

theorem lines_scanned {ns : List Scanned} (h : ns ≠ []) :
    (captured (scanned ns)).splitOn '\n' = ns.map fun n => terseRow n.fields := by
  rw [scanned, terse, List.map_map]
  apply splitOn_captured_unlines (by simpa using h)
  intro l hl
  obtain ⟨n, -, rfl⟩ := List.mem_map.mp hl
  constructor
  · intro hmem
    have := lineBreak_terseRow (lineBreak_fields n) '\n' hmem
    exact absurd this (by decide)
  · exact terseRow_ne_nil (by simp [Scanned.fields])

theorem offered_scanned {order : List Text → List Text} (horder : ∀ l, (order l).Perm l) (ns : List Scanned) :
    offered order (scanned ns) = menuItems order (table ns) := by
  cases ns with
  | nil =>
    have hnone : order [] = [] := List.perm_nil.mp (horder [])
    change [] = (order []).map _
    rw [hnone, List.map_nil]
  | cons n ns =>
    have hlines := lines_scanned (List.cons_ne_nil n ns)
    have hne : captured (scanned (n :: ns)) ≠ [] := by
      intro hempty
      rw [hempty] at hlines
      have hfirst : terseRow n.fields = [] := (List.cons.inj hlines).1.symm
      exact terseRow_ne_nil (by simp [Scanned.fields]) hfirst
    rw [offered, if_neg hne, hlines, table]

/-- An entry of the web page as a line of the menu. -/
def menuItem (g : WifiNetwork) : Text × Text := (g.ssid, description (decimal g.signal) g.security)

theorem menuItems_tableOf {order : List Text → List Text} (horder : ∀ l, (order l).Perm l)
    {gs : List WifiNetwork} (h : Listed gs) : (menuItems order (tableOf gs)).Perm (gs.map menuItem) := by
  have hnames : (tableOf gs).signal.map Prod.fst = gs.map WifiNetwork.ssid := by
    rw [tableOf, List.map_map]
    rfl
  have hitem : ∀ g ∈ gs, (g.ssid, description (((tableOf gs).signal.lookup g.ssid).getD [])
      (((tableOf gs).security.lookup g.ssid).getD [])) = menuItem g := by
    intro g hg
    have hfind : gs.find? (·.ssid = g.ssid) = some g := (Dict.find?_key_iff h.nodup).mpr ⟨hg, rfl⟩
    have hsignal : (tableOf gs).signal.lookup g.ssid =
        (gs.find? (·.ssid = g.ssid)).map fun g => decimal g.signal := Dict.lookup_map_key g.ssid
    have hsecurity : (tableOf gs).security.lookup g.ssid =
        (gs.find? (·.ssid = g.ssid)).map WifiNetwork.security := Dict.lookup_map_key g.ssid
    rw [hsignal, hsecurity, hfind]
    rfl
  rw [menuItems, hnames]
  refine ((horder _).map _).trans ?_
  rw [List.map_map]
  exact .of_eq (List.map_congr_left hitem)

/-! ## The names on either list -/

theorem mem_names_keepStrongest {best : Best} {line k : Text} :
    k ∈ (keepStrongest best line).signal.map Prod.fst ↔
      k ∈ best.signal.map Prod.fst ∨ (readRow line).ssid = k ∧ k ≠ [] := by
  rw [keepStrongest]
  dsimp only
  split
  · next hnone =>
    constructor
    · exact .inl
    · rintro (hk | ⟨rfl, hne⟩)
      · exact hk
      · exact absurd hnone hne
  · next hssid =>
    split
    · rw [Dict.mem_keys_put]
      constructor
      · rintro (rfl | hk)
        · exact .inr ⟨rfl, hssid⟩
        · exact .inl hk
      · rintro (hk | ⟨rfl, -⟩)
        · exact .inr hk
        · exact .inl rfl
    · next hkept =>
      constructor
      · exact .inl
      · rintro (hk | ⟨rfl, -⟩)
        · exact hk
        · -- what is kept was there before
          rw [not_or] at hkept
          cases hlookup : best.signal.lookup (readRow line).ssid with
          | none =>
            rw [hlookup] at hkept
            exact absurd rfl hkept.1
          | some v =>
            obtain ⟨before, after, hmem, -⟩ := List.lookup_eq_some_iff.mp hlookup
            rw [hmem]
            simp

theorem mem_names_table {ns : List Scanned} {k : Text} :
    k ∈ (table ns).signal.map Prod.fst ↔ ∃ n ∈ ns, (readRow (terseRow n.fields)).ssid = k ∧ k ≠ [] := by
  have hall : ∀ (lines : List Text) (best : Best), k ∈ (lines.foldl keepStrongest best).signal.map Prod.fst ↔
      k ∈ best.signal.map Prod.fst ∨ ∃ l ∈ lines, (readRow l).ssid = k ∧ k ≠ [] := by
    intro lines
    induction lines with
    | nil => simp
    | cons l lines ih =>
      intro best
      rw [List.foldl_cons, ih, mem_names_keepStrongest]
      simp only [List.mem_cons, exists_eq_or_imp, or_assoc]
  rw [table, hall]
  simp

theorem mem_names_keepBest {gs : List WifiNetwork} {g : WifiNetwork} {k : Text} :
    k ∈ (keepBest gs g).map WifiNetwork.ssid ↔ k ∈ gs.map WifiNetwork.ssid ∨ g.ssid = k := by
  rw [keepBest]
  split
  · rw [List.map_append, List.map_singleton, List.mem_append, List.mem_singleton, eq_comm (a := k)]
  · next old hfind =>
    have hold : g.ssid ∈ gs.map WifiNetwork.ssid := by
      have hsame : old.ssid = g.ssid := of_decide_eq_true (List.find?_some hfind :)
      exact List.mem_map.mpr ⟨old, List.mem_of_find?_eq_some hfind, hsame⟩
    have habsorb : k ∈ gs.map WifiNetwork.ssid ↔ k ∈ gs.map WifiNetwork.ssid ∨ g.ssid = k :=
      ⟨.inl, fun h => h.elim id fun heq => heq ▸ hold⟩
    split
    · rw [names_replace]
      exact habsorb
    · exact habsorb

theorem mem_names_strongest {ns : List Scanned} {k : Text} :
    k ∈ (strongest ns).map WifiNetwork.ssid ↔ ∃ n ∈ ns, ∃ g ∈ n.shown, g.ssid = k := by
  have hall : ∀ (gs best : List WifiNetwork), k ∈ (gs.foldl keepBest best).map WifiNetwork.ssid ↔
      k ∈ best.map WifiNetwork.ssid ∨ ∃ g ∈ gs, g.ssid = k := by
    intro gs
    induction gs with
    | nil => simp
    | cons g gs ih =>
      intro best
      rw [List.foldl_cons, ih, mem_names_keepBest]
      simp only [List.mem_cons, exists_eq_or_imp, or_assoc]
  rw [strongest, hall]
  simp only [List.map_nil, List.not_mem_nil, false_or, List.mem_filterMap]
  constructor
  · rintro ⟨g, ⟨n, hn, hg⟩, hk⟩
    exact ⟨n, hn, g, hg, hk⟩
  · rintro ⟨n, hn, g, hg, hk⟩
    exact ⟨g, ⟨n, hn, hg⟩, hk⟩

theorem count_escape {f : Text} (h : ':' ∉ f) : (escape f).count '\\' = 2 * f.count '\\' := by
  induction f with
  | nil => rfl
  | cons c f ih =>
    rw [List.mem_cons, not_or] at h
    have hc : c ≠ ':' := fun heq => h.1 heq.symm
    rw [escape, List.flatMap_cons, ← escape, List.count_append, ih h.2, escapeChar]
    by_cases hb : c = '\\'
    · rw [if_pos hb, hb, List.count_cons_self]
      simp
      omega
    · rw [if_neg hb, if_neg hc, List.count_cons_of_ne hb, List.count_cons_of_ne hb, List.count_nil,
        Nat.zero_add]

/-- Where both lists have the same names, no name needs an escape: the console shows no colon,
and a backslash twice as often. -/
theorem plain_of_names {ns : List Scanned}
    (h : ∀ k, k ∈ (table ns).signal.map Prod.fst ↔ k ∈ (strongest ns).map WifiNetwork.ssid) :
    ∀ n ∈ ns, PlainName n.ssid := by
  have hcolon : ∀ k ∈ (strongest ns).map WifiNetwork.ssid, ':' ∉ k := by
    intro k hk
    obtain ⟨n, -, rfl, -⟩ := mem_names_table.mp ((h k).mpr hk)
    exact not_mem_readWord
  have hends : ∀ n ∈ ns, ¬ EndsInBackslash n.ssid := by
    intro n hn hends
    have hshown : n.shown = some ⟨n.joined, 0, openWord⟩ := if_pos hends
    exact hcolon n.joined (mem_names_strongest.mpr ⟨n, hn, _, hshown, rfl⟩) (colon_mem_joined n)
  have hname : ∀ n ∈ ns, n.ssid ≠ [] → n.ssid ∈ (strongest ns).map WifiNetwork.ssid := by
    intro n hn hne
    have hshown : n.shown = some n.network := by rw [Scanned.shown, if_neg (hends n hn), if_neg hne]
    exact mem_names_strongest.mpr ⟨n, hn, _, hshown, rfl⟩
  have hclean : ∀ n ∈ ns, ':' ∉ n.ssid := by
    intro n hn
    by_cases hne : n.ssid = []
    · rw [hne]
      exact List.not_mem_nil
    · exact hcolon n.ssid (hname n hn hne)
  -- a name with the most backslashes has twice as many on the console, so it has none
  have hnone : ∀ n ∈ ns, n.ssid.count '\\' = 0 := by
    cases hmax : (ns.map fun n => n.ssid.count '\\').max? with
    | none =>
      have hempty : ns = [] := List.map_eq_nil_iff.mp (List.max?_eq_none_iff.mp hmax)
      simp [hempty]
    | some m =>
      obtain ⟨hmem, hle⟩ := List.max?_eq_some_iff.mp hmax
      obtain ⟨n, hn, rfl⟩ := List.mem_map.mp hmem
      have hzero : n.ssid.count '\\' = 0 := by
        by_contra hpos
        have hesc : escape n.ssid ≠ [] := by
          intro hempty
          have hcount := count_escape (hclean n hn)
          rw [hempty, List.count_nil] at hcount
          omega
        have hrow : (readRow (terseRow n.fields)).ssid = escape n.ssid := by rw [readRow_fields (hclean n hn)]
        have hconsole := (h _).mp (mem_names_table.mpr ⟨n, hn, hrow, hesc⟩)
        obtain ⟨n', hn', g, hg, hk⟩ := mem_names_strongest.mp hconsole
        rw [Scanned.shown, if_neg (hends n' hn')] at hg
        have hssid : n'.ssid = escape n.ssid := by
          split at hg
          · cases hg
          · rw [← hk, ← Option.some.inj hg]
            rfl
        have hle' := hle _ (List.mem_map.mpr ⟨n', hn', rfl⟩)
        rw [hssid, count_escape (hclean n hn)] at hle'
        omega
      intro n' hn'
      have hle' := hle _ (List.mem_map.mpr ⟨n', hn', rfl⟩)
      omega
  exact fun n hn => ⟨hclean n hn, List.count_eq_zero.mp (hnone n hn)⟩

/-- The console offers what the web page lists exactly when no name has a colon or a backslash. -/
theorem console_lists_alike_iff {digits : Digits} (hdigits : ReadsAscii digits) {env : HostEnv} {s : HostState}
    {order : List Text → List Text} (horder : ∀ l, (order l).Perm l) (ns : List Scanned) {stderr : Text}
    (hexit : env.exits s.ran.length ("nmcli" :: scanArgs) = some ⟨0, scanned ns, stderr⟩) :
    ∃ gs : List WifiNetwork, (Commands.run env (scanWifi digits) s).1 = .ok (.arr (gs.map networkJson)) ∧
      ((offered order (scanned ns)).Perm (gs.map menuItem) ↔ ∀ n ∈ ns, PlainName n.ssid) := by
  have hpages : parseNmcliTerse (scanned ns) = ns.map Scanned.pageRow := by
    rw [scanned, parseNmcliTerse_terse]
    · rw [List.map_map]
      rfl
    · simp [Scanned.fields]
    · intro row hrow
      obtain ⟨n, -, rfl⟩ := List.mem_map.mp hrow
      exact lineBreak_fields n
  have hscan : scanRows digits [] (parseNmcliTerse (scanned ns)) = pure (strongest ns) := by
    rw [hpages, scanRows_pages hdigits]
    rfl
  have hsorted : ((strongest ns).mergeSort fun a b => b.signal ≤ a.signal).Perm (strongest ns) :=
    List.mergeSort_perm _ _
  obtain ⟨t, hcommand⟩ : ∃ t, Commands.run env (runNmcli scanArgs) s = (.ok (scanned ns), t) :=
    ⟨_, run_runProgram (by decide +kernel) hexit⟩
  refine ⟨(strongest ns).mergeSort fun a b => b.signal ≤ a.signal, ?_, ?_⟩
  · rw [Commands.run, scanWifi, Prog.exec_bind_of_ok hcommand, hscan]
    rfl
  · rw [offered_scanned horder]
    constructor
    · intro hperm
      apply plain_of_names
      intro k
      have hconsole : (menuItems order (table ns)).map Prod.fst = order ((table ns).signal.map Prod.fst) := by
        rw [menuItems, List.map_map]
        exact List.map_id _
      have hpage : ((strongest ns).map menuItem).map Prod.fst = (strongest ns).map WifiNetwork.ssid := by
        rw [List.map_map]
        rfl
      have hnames := (hperm.trans (hsorted.map menuItem)).map Prod.fst
      rw [hconsole, hpage] at hnames
      exact ((horder _).symm.trans hnames).mem_iff
    · intro hplain
      rw [table_eq hplain]
      exact (menuItems_tableOf horder (listed_strongest ns)).trans (hsorted.map menuItem).symm

theorem asciiDigits_read : ReadsAscii asciiDigits where
  isDigit _ _ := rfl
  value _ h := if_pos h

theorem home_oneLine : ∀ c ∈ "home".toList, isLineBreak c = false := by simp [isLineBreak]

theorem signal_le {signal : Nat} (h : signal ≤ 100) : ∀ n ∈ some signal, n ≤ 100 :=
  fun _ hs => Option.some.inj hs ▸ h

theorem wpa2_chars : ∀ c ∈ "WPA2".toList, isSecurityChar c = true := by
  simp [isSecurityChar, Char.isAlphanum, Char.isAlpha, Char.isUpper, Char.isDigit]

theorem wpa2_notNumber : "WPA2".toList ≠ [] → "WPA2".toList.all Char.isDigit = false := fun _ => by decide +kernel

def homeScanned (signal : Nat) (h : signal ≤ 100) : Scanned where
  ssid := "home".toList
  signal := signal
  security := "WPA2".toList
  ssidOk := home_oneLine
  signalOk := signal_le h
  securityOk := wpa2_chars
  notNumber := wpa2_notNumber

def cafeScanned : Scanned where
  ssid := "cafe:2".toList
  signal := none
  security := []
  ssidOk := by simp [isLineBreak]
  signalOk := by simp
  securityOk := by simp
  notNumber := by simp

/-- A network that is seen twice, and one with a colon in its name. -/
def sampleScan : List Scanned := [homeScanned 70 (by decide), cafeScanned, homeScanned 90 (by decide)]

def sampleEnv : HostEnv := ⟨[], fun _ _ => some ⟨0, scanned sampleScan, []⟩⟩

def freshHost : HostState := ⟨[], []⟩

theorem colon_lists_apart :
    ∃ gs : List WifiNetwork,
      (Commands.run sampleEnv (scanWifi asciiDigits) freshHost).1 = .ok (.arr (gs.map networkJson)) ∧
      ¬ (offered id (scanned sampleScan)).Perm (gs.map menuItem) := by
  have hexit : sampleEnv.exits freshHost.ran.length ("nmcli" :: scanArgs) = some ⟨0, scanned sampleScan, []⟩ := rfl
  obtain ⟨gs, hpage, hiff⟩ :=
    console_lists_alike_iff asciiDigits_read (fun l => List.Perm.refl l) sampleScan hexit
  refine ⟨gs, hpage, fun hperm => ?_⟩
  have hcafe : cafeScanned ∈ sampleScan := by simp [sampleScan]
  have hplain : ':' ∉ "cafe:2".toList := (hiff.mp hperm cafeScanned hcafe).1
  exact absurd hplain (by decide +kernel)

end WifiConsole
