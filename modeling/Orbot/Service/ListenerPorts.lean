import Orbot.Service.TorrcFile

/-!
# The ports of the listeners

`updateTorrcCustomFile` looks for the SOCKS, HTTP tunnel and transparent proxy ports one after the
other. Each search goes up from the preferred port and sees what listens on the device, but not the
ports that were just chosen. Two searches that meet end at the same port.
-/

namespace Orbot.Service

open Orbot.Foundation Orbot.OnionService

/-! ## The search for a free port -/

/-- The port at which the search from `port` ends. -/
def freePort (isPortOpen : ℕ → Bool) (port : ℕ) : ℕ := nextFreePort isPortOpen (65536 - port) port

/-- One of the ports from `low` up to the one before `high` is free. -/
def FreeBetween (isPortOpen : ℕ → Bool) (low high : ℕ) : Prop :=
  ∃ port, low ≤ port ∧ port < high ∧ isPortOpen port = false

section Search

variable {isPortOpen : ℕ → Bool} {port other : ℕ}

/-- The search passes over used ports only, and stops before the last port at a free one. -/
theorem nextFreePort_spec (isPortOpen : ℕ → Bool) (ports port : ℕ) :
    port ≤ nextFreePort isPortOpen ports port ∧
      nextFreePort isPortOpen ports port ≤ port + ports ∧
      (∀ used, port ≤ used → used < nextFreePort isPortOpen ports port → isPortOpen used = true) ∧
      (nextFreePort isPortOpen ports port < port + ports →
        isPortOpen (nextFreePort isPortOpen ports port) = false) := by
  induction ports generalizing port with
  | zero =>
    refine ⟨le_rfl, le_rfl, fun used hlow hhigh ↦ ?_, fun h ↦ ?_⟩
    · exact absurd hhigh (not_lt.mpr hlow)
    · exact absurd h (lt_irrefl port)
  | succ ports ih =>
    rw [nextFreePort]
    split
    · next hopen =>
      obtain ⟨hlow, hhigh, hused, hfree⟩ := ih (port + 1)
      refine ⟨by omega, by omega, fun used hfrom hto ↦ ?_, fun h ↦ hfree (by omega)⟩
      rcases eq_or_lt_of_le hfrom with rfl | hlater
      · exact hopen
      · exact hused used hlater hto
    · next hopen =>
      refine ⟨le_rfl, by omega, fun used hfrom hto ↦ ?_, fun _ ↦ ?_⟩
      · exact absurd hto (not_lt.mpr hfrom)
      · exact Bool.not_eq_true _ |>.mp hopen

theorem le_freePort (isPortOpen : ℕ → Bool) (port : ℕ) : port ≤ freePort isPortOpen port :=
  (nextFreePort_spec isPortOpen _ port).1

theorem isPortOpen_freePort (h : freePort isPortOpen port < 65536) :
    isPortOpen (freePort isPortOpen port) = false := by
  have hport := le_freePort isPortOpen port
  apply (nextFreePort_spec isPortOpen (65536 - port) port).2.2.2
  change freePort isPortOpen port < _
  omega

/-- The search ends before a port exactly when one of the ports before it is free. -/
theorem freePort_lt_iff {limit : ℕ} (hlimit : limit ≤ 65536) :
    freePort isPortOpen port < limit ↔ FreeBetween isPortOpen port limit := by
  constructor
  · intro h
    exact ⟨freePort isPortOpen port, le_freePort _ _, h, isPortOpen_freePort (by omega)⟩
  · rintro ⟨free, hlow, hhigh, hfree⟩
    by_contra hge
    have hbefore : free < freePort isPortOpen port := by omega
    have hused := (nextFreePort_spec isPortOpen (65536 - port) port).2.2.1 free hlow hbefore
    simp [hfree] at hused

theorem freePort_le (hport : port ≤ 65536) : freePort isPortOpen port ≤ 65536 := by
  have h := (nextFreePort_spec isPortOpen (65536 - port) port).2.1
  change freePort isPortOpen port ≤ _ at h
  omega

/-- Two searches end apart exactly when a port between their beginnings is free. -/
theorem freePort_ne_iff (hlt : port < other) (hother : other ≤ 65536) :
    freePort isPortOpen port ≠ freePort isPortOpen other ↔ FreeBetween isPortOpen port other := by
  rw [← freePort_lt_iff hother]
  constructor
  · intro hne
    by_contra hge
    -- neither search can end before the other, as both see the ports from the later beginning
    have hsame (limit : ℕ) (hlow : other ≤ limit) (hhigh : limit ≤ 65536) :
        freePort isPortOpen port < limit ↔ freePort isPortOpen other < limit := by
      rw [freePort_lt_iff hhigh, freePort_lt_iff hhigh]
      constructor
      · rintro ⟨free, hfrom, hto, hfree⟩
        refine ⟨free, ?_, hto, hfree⟩
        by_contra hbefore
        exact hge ((freePort_lt_iff hother).mpr ⟨free, hfrom, by omega, hfree⟩)
      · rintro ⟨free, hfrom, hto, hfree⟩
        exact ⟨free, by omega, hto, hfree⟩
    have hfrom := le_freePort isPortOpen other
    have h₁ := hsame (freePort isPortOpen port) (by omega) (freePort_le (by omega))
    have h₂ := hsame (freePort isPortOpen other) hfrom (freePort_le hother)
    omega
  · intro hend
    have hfrom := le_freePort isPortOpen other
    omega

end Search

/-! ## Preferences that name a port -/

/-- A decimal text of a port. -/
def IsPortText (text : String) (port : ℕ) : Prop :=
  (∃ n, parseInt text = some n ∧ n.toInt = port) ∧ 1 ≤ port ∧ port ≤ 65535

/-- A port by itself or after an address and a colon. -/
def IsPortPref (pref : String) (port : ℕ) : Prop :=
  ∃ text, IsPortText text port ∧
    (pref = text ∨ ∃ host : String, ':' ∉ host.toList ∧ pref = host ++ ":" ++ text)

/-- A number is written with digits and at most a sign. -/
theorem digit_or_sign_of_parseInt {text : String} {n : Int32} (h : parseInt text = some n) :
    text.toList ≠ [] ∧ ∀ c ∈ text.toList, (digit c).isSome ∨ c = '-' ∨ c = '+' := by
  have hdigits {digits : List Char} {value : ℕ → ℤ}
      (hparsed : ((digitsValue digits).bind fun number ↦ intOfRange (value number)) = some n) :
      digits ≠ [] ∧ ∀ c ∈ digits, (digit c).isSome ∨ c = '-' ∨ c = '+' := by
    obtain ⟨number, hnumber, -⟩ := Option.bind_eq_some_iff.mp hparsed
    obtain ⟨hne, hall⟩ := isSome_digit_of_digitsValue hnumber
    exact ⟨hne, fun c hc ↦ .inl (hall c hc)⟩
  unfold parseInt at h
  split at h
  · next digits htext =>
    rw [htext]
    refine ⟨List.cons_ne_nil _ _, fun c hc ↦ ?_⟩
    rcases List.mem_cons.mp hc with rfl | hc
    · exact .inr (.inl rfl)
    · exact (hdigits h).2 c hc
  · next digits htext =>
    rw [htext]
    refine ⟨List.cons_ne_nil _ _, fun c hc ↦ ?_⟩
    rcases List.mem_cons.mp hc with rfl | hc
    · exact .inr (.inr rfl)
    · exact (hdigits h).2 c hc
  · exact hdigits h

/-- Characters before the letters have no case. -/
theorem foldCase_of_lt {c : Char} (h : c.toNat < 65) : foldCase c = c := by
  have hne {d : Char} (hd : 65 ≤ d.toNat) : c ≠ d := by
    rintro rfl
    omega
  rw [foldCase, if_neg (hne (by decide)), if_neg (hne (by decide))]
  apply dif_neg
  intro hletter
  have hge := UInt32.le_iff_toNat_le.mp hletter.1
  change 65 ≤ c.toNat at hge
  omega

/-- Only ASCII letters equal the letter o without regard to case. -/
theorem lt_of_foldCase {c : Char} (h : foldCase c = 'o') : c.toNat < 0x660 := by
  unfold foldCase at h
  split at h
  · exact absurd h (by decide)
  · split at h
    · exact absurd h (by decide)
    · unfold Char.toLower at h
      split at h
      · next hupper =>
        have hle := UInt32.le_iff_toNat_le.mp hupper.2
        change c.toNat ≤ 90 at hle
        omega
      · rw [h]
        decide

theorem foldCase_of_parseInt {text : String} {n : Int32} (h : parseInt text = some n) {c : Char}
    (hc : c ∈ text.toList) : foldCase c ≠ 'o' := by
  intro hfold
  rcases (digit_or_sign_of_parseInt h).2 c hc with hdigit | rfl | rfl
  · cases hascii : c.isDigit with
    | false =>
      rw [digit_eq_none (lt_of_foldCase hfold) hascii] at hdigit
      cases hdigit
    | true =>
      have hle := (Char.isDigit_iff_toNat.mp hascii).2
      rw [foldCase_of_lt (hle.trans_lt (by decide))] at hfold
      rw [hfold] at hascii
      exact absurd hascii (by decide)
  · exact absurd hfold (by decide)
  · exact absurd hfold (by decide)

theorem not_auto_of_parseInt {text : String} {n : Int32} (h : parseInt text = some n) :
    equalsIgnoreCase text "auto" = false := by
  rw [equalsIgnoreCase, decide_eq_false_iff_not]
  intro hauto
  have hmem : 'o' ∈ text.toList.map foldCase := by
    rw [hauto]
    decide
  obtain ⟨c, hc, hfold⟩ := List.mem_map.mp hmem
  exact foldCase_of_parseInt h hc hfold

theorem colon_not_mem_of_parseInt {text : String} {n : Int32} (h : parseInt text = some n) :
    ':' ∉ text.toList := by
  intro hcolon
  rcases (digit_or_sign_of_parseInt h).2 ':' hcolon with hdigit | hsign | hsign
  · rw [digit_eq_none (by decide) (by decide)] at hdigit
    cases hdigit
  · exact absurd hsign (by decide)
  · exact absurd hsign (by decide)

section Texts

variable {isPortOpen : ℕ → Bool} {pref text : String} {port : ℕ}

theorem checkPortOrAuto_of_port (h : IsPortText text port) :
    checkPortOrAuto isPortOpen text = some (toString (freePort isPortOpen port)) := by
  obtain ⟨⟨n, hparse, hport⟩, -⟩ := h
  rw [checkPortOrAuto, not_auto_of_parseInt hparse, if_neg Bool.false_ne_true, hparse,
    Option.map_some, hport, if_neg (by omega), Int.toNat_natCast]
  rfl

theorem portAfterAddress_of_port (h : IsPortPref pref port) :
    ∃ text, IsPortText text port ∧ portAfterAddress pref = some text := by
  obtain ⟨text, htext, hpref⟩ := h
  obtain ⟨n, hparse, -⟩ := htext.1
  have hcolon := colon_not_mem_of_parseInt hparse
  refine ⟨text, htext, ?_⟩
  rw [portAfterAddress]
  rcases hpref with rfl | ⟨host, hhost, rfl⟩
  · rw [if_neg hcolon]
  · have hsplit := split_pair hhost hcolon (digit_or_sign_of_parseInt hparse).1
    have hchars : host ++ ":" ++ text = String.ofList (host.toList ++ ':' :: text.toList) := by
      apply String.toList_inj.mp
      simp
    rw [if_pos (by simp), hchars, hsplit]
    simp

theorem checkPort_of_pref (h : IsPortPref pref port) :
    (portAfterAddress pref).bind (checkPortOrAuto isPortOpen) =
      some (toString (freePort isPortOpen port)) := by
  obtain ⟨text, htext, hpref⟩ := portAfterAddress_of_port h
  rw [hpref, Option.bind_some, checkPortOrAuto_of_port htext]

/-- The ports from three preferences are the ends of their searches. -/
theorem portTexts_of_prefs {prefs : TorrcPreferences} {socks http trans : ℕ}
    (hsocks : IsPortPref (prefs.socks.getD "9050") socks)
    (hhttp : IsPortPref (prefs.http.getD "8118") http)
    (htrans : IsPortText (prefs.transport.getD "9040") trans) :
    portTexts isPortOpen prefs =
      (checkPortOrAuto isPortOpen (prefs.dnsport.getD "5400")).map fun dns ↦
        ⟨toString (freePort isPortOpen socks), toString (freePort isPortOpen http),
          toString (freePort isPortOpen trans), dns⟩ := by
  rw [portTexts, checkPort_of_pref hsocks, Option.bind_some, checkPort_of_pref hhttp,
    Option.bind_some, checkPortOrAuto_of_port htrans, Option.bind_some]

end Texts

/-! ## Distinct ports -/

/-- The three listeners get distinct ports of the valid range at which nothing listens. -/
def PortTexts.ListenApart (ports : PortTexts) (isPortOpen : ℕ → Bool) : Prop :=
  ∃ socks http trans : ℕ, ports.socksPort = toString socks ∧ ports.httpPort = toString http ∧
    ports.transPort = toString trans ∧ [socks, http, trans].Nodup ∧
    ∀ port ∈ [socks, http, trans], 1 ≤ port ∧ port ≤ 65535 ∧ isPortOpen port = false

/-- A generated file begins with the lines for ports that lie apart. -/
def ListensApart (device : Device) (choice : TorrcChoice) (prefs : TorrcPreferences)
    (tables : Tables) : Prop :=
  ∀ text tables', updateTorrcCustomFile device choice prefs tables = some (text, tables') →
    ∃ ports, portTexts choice.isPortOpen prefs = some ports ∧
      ("\n" ++ directivesText (portSettings ports prefs)).toList <+: text.toList ∧
      ports.ListenApart choice.isPortOpen

/-- No file is generated: the port for DNS cannot be read, or the settings of the relay fail. -/
def WritesNothing (device : Device) (prefs : TorrcPreferences) : Prop :=
  (equalsIgnoreCase (prefs.dnsport.getD "5400") "auto" = false ∧
      parseInt (prefs.dnsport.getD "5400") = none) ∨
    relaySettings device prefs.toPreferences = none

/-- A port is free between any two of the numbers, and after each of them. -/
def FreeApart (isPortOpen : ℕ → Bool) (ports : List ℕ) : Prop :=
  (∀ port ∈ ports, FreeBetween isPortOpen port 65536) ∧
    ∀ port ∈ ports, ∀ other ∈ ports, port < other → FreeBetween isPortOpen port other

theorem checkPortOrAuto_eq_none (isPortOpen : ℕ → Bool) {text : String} :
    checkPortOrAuto isPortOpen text = none ↔
      equalsIgnoreCase text "auto" = false ∧ parseInt text = none := by
  unfold checkPortOrAuto
  cases equalsIgnoreCase text "auto" with
  | true => simp
  | false => simp

/-- Searches from distinct ports end apart and at usable ports exactly when enough are free. -/
theorem freePorts_apart_iff {isPortOpen : ℕ → Bool} {ports : List ℕ} (hnodup : ports.Nodup)
    (hrange : ∀ port ∈ ports, 1 ≤ port ∧ port ≤ 65535) :
    ((ports.map (freePort isPortOpen)).Nodup ∧
      ∀ port ∈ ports.map (freePort isPortOpen),
        1 ≤ port ∧ port ≤ 65535 ∧ isPortOpen port = false) ↔ FreeApart isPortOpen ports := by
  rw [List.nodup_map_iff_inj_on hnodup, List.forall_mem_map]
  constructor
  · rintro ⟨hinj, husable⟩
    refine ⟨fun port hport ↦ ?_, fun port hport other hother hlt ↦ ?_⟩
    · have hend := (husable port hport).2.1
      exact (freePort_lt_iff le_rfl).mp (by omega)
    · have hle := (hrange other hother).2
      apply (freePort_ne_iff hlt (by omega)).mp
      intro hend
      exact hlt.ne (hinj port hport other hother hend)
  · rintro ⟨hfree, hbetween⟩
    refine ⟨fun port hport other hother hend ↦ ?_, fun port hport ↦ ?_⟩
    · have hle := hrange port hport
      have hle' := hrange other hother
      by_contra hne
      rcases Nat.lt_or_gt_of_ne hne with hlt | hlt
      · exact (freePort_ne_iff hlt (by omega)).mpr (hbetween port hport other hother hlt) hend
      · exact (freePort_ne_iff hlt (by omega)).mpr (hbetween other hother port hport hlt) hend.symm
    · have hend := (freePort_lt_iff le_rfl).mpr (hfree port hport)
      have hle := le_freePort isPortOpen port
      have hlow := (hrange port hport).1
      exact ⟨by omega, by omega, isPortOpen_freePort hend⟩

theorem listenApart_iff {isPortOpen : ℕ → Bool} {socks http trans : ℕ} {dns : String} :
    PortTexts.ListenApart ⟨toString socks, toString http, toString trans, dns⟩ isPortOpen ↔
      [socks, http, trans].Nodup ∧
        ∀ port ∈ [socks, http, trans], 1 ≤ port ∧ port ≤ 65535 ∧ isPortOpen port = false := by
  constructor
  · rintro ⟨socks', http', trans', hsocks, hhttp, htrans, happart⟩
    obtain rfl := toString_nat_injective hsocks
    obtain rfl := toString_nat_injective hhttp
    obtain rfl := toString_nat_injective htrans
    exact happart
  · intro happart
    exact ⟨socks, http, trans, rfl, rfl, rfl, happart⟩

/-- A generated file begins with the lines for the ports. -/
theorem updateTorrcCustomFile_ports {device : Device} {choice : TorrcChoice}
    {prefs : TorrcPreferences} {tables tables' : Tables} {text : String}
    (h : updateTorrcCustomFile device choice prefs tables = some (text, tables')) :
    ∃ ports, portTexts choice.isPortOpen prefs = some ports ∧
      ("\n" ++ directivesText (portSettings ports prefs)).toList <+: text.toList := by
  obtain ⟨ports, hports, hsettings⟩ := Option.bind_eq_some_iff.mp h
  obtain ⟨settings, -, hfile⟩ := Option.map_eq_some_iff.mp hsettings
  obtain ⟨rfl, -⟩ := Prod.mk.inj hfile
  refine ⟨ports, hports, ?_⟩
  simp [torrcText, directivesText, directiveChars]

theorem updateTorrcCustomFile_eq_none {device : Device} (choice : TorrcChoice)
    {prefs : TorrcPreferences} (tables : Tables) {socks http trans : ℕ}
    (hsocks : IsPortPref (prefs.socks.getD "9050") socks)
    (hhttp : IsPortPref (prefs.http.getD "8118") http)
    (htrans : IsPortText (prefs.transport.getD "9040") trans) :
    updateTorrcCustomFile device choice prefs tables = none ↔ WritesNothing device prefs := by
  rw [WritesNothing, ← checkPortOrAuto_eq_none choice.isPortOpen,
    updateTorrcCustomFile, portTexts_of_prefs hsocks hhttp htrans, processSettingsImpl]
  cases checkPortOrAuto choice.isPortOpen (prefs.dnsport.getD "5400") with
  | none => simp
  | some dns => cases relaySettings device prefs.toPreferences <;> simp

theorem port_of_pref {pref : String} {port : ℕ} (h : IsPortPref pref port) :
    1 ≤ port ∧ port ≤ 65535 := by
  obtain ⟨text, htext, -⟩ := h
  exact htext.2

theorem listenApart_of_prefs {isPortOpen : ℕ → Bool} {prefs : TorrcPreferences}
    {ports : PortTexts} {socks http trans : ℕ}
    (hsocks : IsPortPref (prefs.socks.getD "9050") socks)
    (hhttp : IsPortPref (prefs.http.getD "8118") http)
    (htrans : IsPortText (prefs.transport.getD "9040") trans)
    (hdistinct : [socks, http, trans].Nodup) (hports : portTexts isPortOpen prefs = some ports) :
    ports.ListenApart isPortOpen ↔ FreeApart isPortOpen [socks, http, trans] := by
  have hrange : ∀ port ∈ [socks, http, trans], 1 ≤ port ∧ port ≤ 65535 := by
    simp [port_of_pref hsocks, port_of_pref hhttp, htrans.2]
  rw [portTexts_of_prefs hsocks hhttp htrans] at hports
  obtain ⟨dns, -, rfl⟩ := Option.map_eq_some_iff.mp hports
  rw [listenApart_iff]
  exact freePorts_apart_iff hdistinct hrange

/-- The listeners get distinct usable ports exactly when nothing is written, or a port is free
between any two of the preferred ones and after each. -/
theorem listensApart_iff (device : Device) (choice : TorrcChoice) (prefs : TorrcPreferences)
    (tables : Tables) {socks http trans : ℕ}
    (hsocks : IsPortPref (prefs.socks.getD "9050") socks)
    (hhttp : IsPortPref (prefs.http.getD "8118") http)
    (htrans : IsPortText (prefs.transport.getD "9040") trans)
    (hdistinct : [socks, http, trans].Nodup) :
    ListensApart device choice prefs tables ↔
      WritesNothing device prefs ∨ FreeApart choice.isPortOpen [socks, http, trans] := by
  rw [← updateTorrcCustomFile_eq_none choice tables hsocks hhttp htrans]
  constructor
  · intro h
    cases hfile : updateTorrcCustomFile device choice prefs tables with
    | none => exact .inl rfl
    | some file =>
      obtain ⟨ports, hports, -, hlisten⟩ := h file.1 file.2 hfile
      exact .inr ((listenApart_of_prefs hsocks hhttp htrans hdistinct hports).mp hlisten)
  · intro h text tables' hfile
    obtain ⟨ports, hports, hprefix⟩ := updateTorrcCustomFile_ports hfile
    refine ⟨ports, hports, hprefix, ?_⟩
    rw [listenApart_of_prefs hsocks hhttp htrans hdistinct hports]
    exact h.resolve_left (by simp [hfile])

/-- The SOCKS port at an address, and the other ports as they are by default. -/
def addressedSocks : TorrcPreferences := { socks := some "127.0.0.1:9050" }

theorem isPortPref_addressedSocks : IsPortPref (addressedSocks.socks.getD "9050") 9050 :=
  ⟨"9050", ⟨⟨9050, by decide, by decide⟩, by decide, by decide⟩, .inr ⟨"127.0.0.1", by decide, rfl⟩⟩

theorem listensApart_unused :
    ListensApart plainDevice ⟨fun _ ↦ false, firstChoice⟩ addressedSocks noTables := by
  have hhttp : IsPortPref (addressedSocks.http.getD "8118") 8118 :=
    ⟨"8118", ⟨⟨8118, by decide, by decide⟩, by decide, by decide⟩, .inl rfl⟩
  have htrans : IsPortText (addressedSocks.transport.getD "9040") 9040 :=
    ⟨⟨9040, by decide, by decide⟩, by decide, by decide⟩
  apply (listensApart_iff plainDevice _ _ _ isPortPref_addressedSocks hhttp htrans
    (by decide)).mpr
  refine .inr ⟨fun port hport ↦ ?_, fun port _ other _ hlt ↦ ⟨port, le_rfl, hlt, rfl⟩⟩
  have hlt : port < 65536 := by
    simp only [List.mem_cons, List.not_mem_nil, or_false] at hport
    omega
  exact ⟨port, le_rfl, hlt, rfl⟩

/-- The SOCKS and the HTTP tunnel port next to each other. -/
def adjacentPorts : TorrcPreferences := { http := some "9051" }

/-- Something listens at the default SOCKS port: the search for another one ends at the port that
the HTTP tunnel gets as well. -/
theorem adjacentPorts_meet :
    IsPortPref (adjacentPorts.socks.getD "9050") 9050 ∧
      IsPortPref (adjacentPorts.http.getD "8118") 9051 ∧
      IsPortText (adjacentPorts.transport.getD "9040") 9040 ∧ [9050, 9051, 9040].Nodup ∧
      ¬ ListensApart plainDevice ⟨fun port ↦ port = 9050, firstChoice⟩ adjacentPorts noTables := by
  have hsocks : IsPortPref (adjacentPorts.socks.getD "9050") 9050 :=
    ⟨"9050", ⟨⟨9050, by decide, by decide⟩, by decide, by decide⟩, .inl rfl⟩
  have hhttp : IsPortPref (adjacentPorts.http.getD "8118") 9051 :=
    ⟨"9051", ⟨⟨9051, by decide, by decide⟩, by decide, by decide⟩, .inl rfl⟩
  have htrans : IsPortText (adjacentPorts.transport.getD "9040") 9040 :=
    ⟨⟨9040, by decide, by decide⟩, by decide, by decide⟩
  refine ⟨hsocks, hhttp, htrans, by decide, fun h ↦ ?_⟩
  have hwritten : ¬ WritesNothing plainDevice adjacentPorts := by
    rintro (⟨-, hnone⟩ | hnone)
    · exact absurd hnone (by decide)
    · cases hnone
  cases hfile : updateTorrcCustomFile plainDevice ⟨fun port ↦ port = 9050, firstChoice⟩
      adjacentPorts noTables with
  | none => exact hwritten ((updateTorrcCustomFile_eq_none _ _ hsocks hhttp htrans).mp hfile)
  | some file =>
    obtain ⟨ports, hports, -, hlisten⟩ := h file.1 file.2 hfile
    have hfree := (listenApart_of_prefs hsocks hhttp htrans (by decide) hports).mp hlisten
    obtain ⟨free, hlow, hhigh, hfree⟩ := hfree.2 9050 (by decide) 9051 (by decide) (by decide)
    have hfirst : free = 9050 := by omega
    simp [hfirst] at hfree

end Orbot.Service
