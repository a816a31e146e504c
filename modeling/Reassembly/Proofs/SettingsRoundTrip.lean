import Reassembly.Proofs.Sections

/-! Settings that are written can be read again, and come back the same: every cap and the lack of
one, either policy, any idle time and whatever text names the level. The only thing that keeps
settings from being written is a number that is too large for a document. -/
namespace Reassembly.Settings

open Toml (Field Section IsBareKey Written written_nat written_boolean written_string)

def capFields (key : String) (bare : IsBareKey key) :
    (cap : Option ℕ) → (∀ n ∈ cap, n ≤ Toml.maxInteger) → List Field
  | none, _ => []
  | some n, h => [⟨key,_,.integer n,bare,written_nat (h n rfl)⟩]

theorem natLine_cases (key : String) (n : ℕ) :
    n ≤ Toml.maxInteger ∧ natLine key n = .ok (line key (Nat.toDigits 10 n)) ∨
      ¬n ≤ Toml.maxInteger ∧ natLine key n = .error (.config none) := by
  rw [natLine,natText]
  split_ifs with hn
  · exact .inl ⟨hn,rfl⟩
  · exact .inr ⟨hn,rfl⟩

theorem capLine_cases (key : String) (bare : IsBareKey key) (cap : Option ℕ) :
    (∃ h : ∀ n ∈ cap, n ≤ Toml.maxInteger,
        capLine key cap = .ok ((capFields key bare cap h).flatMap Field.line)) ∨
      (¬∀ n ∈ cap, n ≤ Toml.maxInteger) ∧ capLine key cap = .error (.config none) := by
  cases cap with
  | none => exact .inl ⟨by simp,rfl⟩
  | some n =>
    rcases natLine_cases key n with ⟨hn,hline⟩ | ⟨hn,hline⟩
    · exact .inl ⟨by simpa using hn,hline.trans (congrArg Except.ok (List.append_nil _).symm)⟩
    · exact .inr ⟨by simpa using hn,hline⟩

section Cap

variable {key : String} {bare : IsBareKey key} {cap : Option ℕ}
  {h : ∀ n ∈ cap, n ≤ Toml.maxInteger}

theorem keys_capFields : (capFields key bare cap h).map Field.key = cap.toList.map fun _ => key := by
  cases cap <;> rfl

theorem entries_capFields :
    (capFields key bare cap h).map Field.entry = cap.toList.map fun n => (key,.integer n) := by
  cases cap <;> rfl

end Cap

def numbers (s : Settings) : List ℕ :=
  s.limits.maxSegments.toList ++ s.limits.maxBytes.toList ++ [s.idleTimeout]

/-- No number is too large for a document. -/
structure Fits (s : Settings) : Prop where
  segments : ∀ n ∈ s.limits.maxSegments, n ≤ Toml.maxInteger
  bytes : ∀ n ∈ s.limits.maxBytes, n ≤ Toml.maxInteger
  timeout : s.idleTimeout ≤ Toml.maxInteger

variable {s : Settings}

theorem fits_iff_numbers : s.Fits ↔ ∀ n ∈ s.numbers, n ≤ Toml.maxInteger := by
  constructor
  · intro h n hn
    simp only [numbers,List.mem_append,Option.mem_toList,List.mem_singleton] at hn
    rcases hn with (hsegments | hbytes) | rfl
    · exact h.segments n hsegments
    · exact h.bytes n hbytes
    · exact h.timeout
  · intro h
    exact ⟨fun n hn => h n (by simp [numbers,Option.mem_def.mp hn]),
      fun n hn => h n (by simp [numbers,Option.mem_def.mp hn]),h _ (by simp [numbers])⟩

/-! ### The sections -/

/-- The name of a policy is written as any text is. -/
theorem written_overflow (o : Overflow) : Written (['"'] ++ o.name.toList ++ ['"']) (.string o.name) := by
  have hquoted : Toml.writeQuoted o.name.toList = ['"'] ++ o.name.toList ++ ['"'] := by
    cases o <;> decide
  exact hquoted ▸ written_string o.name

def limitsSection (s : Settings) (h : s.Fits) : Section where
  name := "reassembly"
  fields := capFields "max_pending_segments" (by decide) s.limits.maxSegments h.segments ++
    (capFields "max_pending_bytes" (by decide) s.limits.maxBytes h.bytes ++
      [⟨"overflow_policy",_,_,by decide,written_overflow s.limits.overflow⟩])
  bare := by decide
  distinct := by
    rw [List.map_append,List.map_append,keys_capFields,keys_capFields]
    change (_ ++ (_ ++ ["overflow_policy"])).Nodup
    cases s.limits.maxSegments <;> cases s.limits.maxBytes <;> simp

def streamSection (s : Settings) (h : s.Fits) : Section where
  name := "stream"
  fields := [⟨"idle_timeout_secs",_,_,by decide,written_nat h.timeout⟩]
  bare := by decide
  distinct := by
    change ["idle_timeout_secs"].Nodup
    simp

def loggingSection (s : Settings) : Section where
  name := "logging"
  fields := [⟨"level",_,_,by decide,written_string s.level⟩,
    ⟨"json_format",_,_,by decide,written_boolean s.jsonLog⟩]
  bare := by decide
  distinct := by
    change ["level","json_format"].Nodup
    simp

def sections (s : Settings) (h : s.Fits) : List Section :=
  [s.limitsSection h,s.streamSection h,s.loggingSection]

/-! ### What is written -/

theorem text_limitsSection (h : s.Fits) : (s.limitsSection h).text =
    "[reassembly]\n".toList ++
      ((capFields "max_pending_segments" (by decide) s.limits.maxSegments h.segments).flatMap
          Field.line ++
        ((capFields "max_pending_bytes" (by decide) s.limits.maxBytes h.bytes).flatMap Field.line ++
          line "overflow_policy" (['"'] ++ s.limits.overflow.name.toList ++ ['"']))) := by
  have hheader : "[reassembly]\n".toList = '[' :: "reassembly".toList ++ [']','\n'] := rfl
  rw [Section.text,Section.header,hheader]
  simp only [limitsSection,List.flatMap_append,List.flatMap_singleton,Field.line]

theorem text_streamSection (h : s.Fits) : '\n'::(s.streamSection h).text =
    "\n[stream]\n".toList ++ line "idle_timeout_secs" (Nat.toDigits 10 s.idleTimeout) := by
  have hheader : "\n[stream]\n".toList = '\n' :: ('[' :: "stream".toList ++ [']','\n']) := rfl
  rw [Section.text,Section.header,hheader]
  simp only [streamSection,List.flatMap_singleton,Field.line,List.cons_append]

theorem text_loggingSection (s : Settings) : '\n'::s.loggingSection.text =
    "\n[logging]\n".toList ++ (line "level" (Toml.writeQuoted s.level.toList) ++
      line "json_format" (if s.jsonLog then "true" else "false").toList) := by
  have hheader : "\n[logging]\n".toList = '\n' :: ('[' :: "logging".toList ++ [']','\n']) := rfl
  rw [Section.text,Section.header,hheader]
  simp only [loggingSection,List.flatMap_cons,List.flatMap_nil,List.append_nil,Field.line,
    List.cons_append]

/-- The settings are written as a document, unless one of the numbers is too large. -/
theorem render_cases (s : Settings) :
    (∃ h : s.Fits, s.render = .ok (Toml.document (s.sections h))) ∨
      ¬s.Fits ∧ s.render = .error (.config none) := by
  rcases capLine_cases "max_pending_segments" (by decide) s.limits.maxSegments with
    ⟨hsegments,hline⟩ | ⟨hlarge,hline⟩
  · rcases capLine_cases "max_pending_bytes" (by decide) s.limits.maxBytes with
      ⟨hbytes,hline'⟩ | ⟨hlarge,hline'⟩
    · rcases natLine_cases "idle_timeout_secs" s.idleTimeout with
        ⟨htimeout,hline''⟩ | ⟨hlarge,hline''⟩
      · have h : s.Fits := ⟨hsegments,hbytes,htimeout⟩
        have hparts : Toml.document (s.sections h) = (s.limitsSection h).text ++
            (('\n'::(s.streamSection h).text) ++ (('\n'::s.loggingSection.text) ++ [])) := rfl
        refine .inl ⟨h,?_⟩
        rw [render,hline,hline',hline'',hparts,text_limitsSection,text_streamSection,
          text_loggingSection,List.append_nil]
        simp only [List.append_assoc]
        rfl
      · exact .inr ⟨fun h => hlarge h.timeout,by rw [render,hline,hline',hline'']; rfl⟩
    · exact .inr ⟨fun h => hlarge h.bytes,by rw [render,hline,hline']; rfl⟩
  · exact .inr ⟨fun h => hlarge h.segments,by rw [render,hline]; rfl⟩

/-! ### What is read -/

/-- A number that fits a document fits a machine word. -/
theorem optional_nat? {cap : Option ℕ} (h : ∀ n ∈ cap, n ≤ Toml.maxInteger) :
    Toml.optional (·.nat? maxWord) (cap.map fun n : ℕ => .integer n) = some cap := by
  cases cap with
  | none => rfl
  | some n =>
    have hn : n ≤ maxWord := (h n rfl).trans (by decide)
    simp [Toml.optional,Toml.Value.nat?,hn]

theorem fields_limitsSection (h : s.Fits) : (s.limitsSection h).entry.2.fields?
    ["max_pending_segments","max_pending_bytes","overflow_policy"] =
      some [s.limits.maxSegments.map fun n : ℕ => .integer n,
        s.limits.maxBytes.map fun n : ℕ => .integer n,some (.string s.limits.overflow.name)] := by
  simp only [limitsSection,Section.entry,List.map_append,entries_capFields]
  cases s.limits.maxSegments <;> cases s.limits.maxBytes <;> rfl

theorem ofEntries?_sections (h : s.Fits) :
    ofEntries? ((s.sections h).map Section.entry) = some s := by
  have hlimits : sectionFields? ((s.sections h).map Section.entry) "reassembly"
      ["max_pending_segments","max_pending_bytes","overflow_policy"] = _ := fields_limitsSection h
  have hstream : sectionFields? ((s.sections h).map Section.entry) "stream" ["idle_timeout_secs"] =
      some [some (.integer s.idleTimeout)] := rfl
  have hlogging : sectionFields? ((s.sections h).map Section.entry) "logging"
      ["level","json_format"] = some [some (.string s.level),some (.boolean s.jsonLog)] := rfl
  have htimeout : Toml.optional (·.nat? maxWord) ((some s.idleTimeout).map fun n : ℕ => .integer n) =
      some (some s.idleTimeout) := optional_nat? (by simpa using h.timeout)
  rw [Option.map_some] at htimeout
  have hoverflow : Toml.optional (fun v => v.choice?.bind Overflow.ofName?)
      (some (.string s.limits.overflow.name)) = some (some s.limits.overflow) := by
    simp [Toml.optional,Toml.Value.choice?]
  simp only [ofEntries?,hlimits,hstream,hlogging,htimeout,hoverflow,optional_nat? h.segments,
    optional_nat? h.bytes,Option.bind_eq_bind,Option.bind_some]
  rfl

theorem ofToml_sections (h : s.Fits) :
    ofToml (String.ofList (Toml.document (s.sections h))) = .ok s := by
  have hdistinct : ((s.sections h).map Section.name).Nodup := by
    change ["reassembly","stream","logging"].Nodup
    simp
  rw [ofToml,Toml.read?_document hdistinct,Option.bind_some,ofEntries?_sections]

/-- Settings can be written exactly if no number in them is more than 2⁶³-1, and are then read back the
same. If they cannot be written, the fault that is reported is one of the configuration. -/
theorem toToml_reads_back (s : Settings) :
    ((∃ text, s.toToml = .ok text) ↔ ∀ n ∈ s.numbers, n ≤ 2^63-1) ∧
      match s.toToml with
      | .ok text => ofToml text = .ok s
      | .error fault => ∃ reason, fault = .config reason := by
  have hfits : s.Fits ↔ ∀ n ∈ s.numbers, n ≤ 2^63-1 := fits_iff_numbers
  rw [← hfits]
  rcases s.render_cases with ⟨h,hrender⟩ | ⟨hnot,hrender⟩
  · have htext : s.toToml = .ok (String.ofList (Toml.document (s.sections h))) := by
      rw [toToml,hrender]
      rfl
    rw [htext]
    exact ⟨⟨fun _ => h,fun _ => ⟨_,rfl⟩⟩,ofToml_sections h⟩
  · have hfault : s.toToml = .error (.config none) := by
      rw [toToml,hrender]
      rfl
    rw [hfault]
    refine ⟨⟨?_,fun h => absurd h hnot⟩,none,rfl⟩
    rintro ⟨_,htext⟩
    cases htext

end Reassembly.Settings
