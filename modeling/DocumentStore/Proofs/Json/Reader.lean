import DocumentStore.Json.Reader
import DocumentStore.Proofs.Value.Depth

/-!
# What is read

Whatever the text is, a value that is read of it is well-formed and no deeper
than the reader's limit. The text may repeat a key or nest as it likes: fields
are assigned one by one, so no key comes to stand twice, and a bracket that
would open one container too many ends the reading.

The reader keeps the containers that are open on a stack, and a container with
`height` others around it has to leave room for these. `Fits` says that it does,
and each token preserves it for the whole stack.
-/

namespace DocumentStore.Json

variable {limit : Nat} {stack : List Frame} {build next : Build} {token : Token}
  {v : Value}

/-- A container with `height` others around it. -/
def Frame.Fits (limit height : Nat) : Frame → Prop
  | .array read => (Value.array read).Fits limit height
  | .object read _ => (Value.object read).Fits limit height

/-- The open containers, the innermost one first. -/
def StackFits (limit : Nat) : List Frame → Prop
  | [] => True
  | frame :: stack => frame.Fits limit stack.length ∧ StackFits limit stack

/-- The containers that are open, or the value that is complete. -/
def Build.Fits (limit : Nat) : Build → Prop
  | .value stack => StackFits limit stack
  | .firstItem stack => StackFits limit (.array [] :: stack)
  | .afterItem read stack => StackFits limit (.array read :: stack)
  | .firstKey stack => StackFits limit (.object [] "" :: stack)
  | .nextKey read stack => StackFits limit (.object read "" :: stack)
  | .colon read key stack => StackFits limit (.object read key :: stack)
  | .afterField read stack => StackFits limit (.object read "" :: stack)
  | .done v => v.Fits limit 0

theorem length_le_of_stackFits (h : StackFits limit stack) :
    stack.length ≤ limit := by
  cases stack with
  | nil => exact Nat.zero_le limit
  | cons frame rest =>
      cases frame with
      | array read => exact (Value.fits_array_iff.mp h.1).1
      | object read key => exact (Value.fits_object_iff.mp h.1).1

theorem fits_accept (h : StackFits limit stack)
    (hv : v.Fits limit stack.length) :
    (Build.accept v stack).Fits limit := by
  cases stack with
  | nil => exact hv
  | cons frame rest =>
      obtain ⟨hframe, hrest⟩ := h
      cases frame with
      | array read =>
          obtain ⟨hlt, hread⟩ := Value.fits_array_iff.mp hframe
          refine ⟨Value.fits_array_iff.mpr ⟨hlt, ?_⟩, hrest⟩
          intro w hw
          rcases List.mem_cons.mp hw with rfl | hw
          · exact hv
          · exact hread w hw
      | object read key =>
          obtain ⟨hlt, hkeys, hread⟩ := Value.fits_object_iff.mp hframe
          refine ⟨Value.fits_object_iff.mpr
            ⟨hlt, Fields.nodup_keys_insert key v hkeys, ?_⟩, hrest⟩
          intro entry hentry
          rcases Fields.mem_insert hentry with rfl | hentry
          · exact hv
          · exact hread entry hentry

theorem fits_start (h : StackFits limit stack)
    (hstart : Build.start limit stack token = some next) :
    next.Fits limit := by
  have hscalar : ∀ {v : Value}, v.WellFormed → v.depth = 0 →
      (Build.accept v stack).Fits limit := by
    intro v hwf hdepth
    have hlength := length_le_of_stackFits h
    exact fits_accept h ⟨hwf, by omega⟩
  rw [Build.start.eq_def] at hstart
  split at hstart
  · cases hstart
    exact hscalar Value.wellFormed_null rfl
  · cases hstart
    exact hscalar trivial rfl
  · cases hstart
    exact hscalar (Value.wellFormed_number _) rfl
  · cases hstart
    exact hscalar (Value.wellFormed_string _) rfl
  · split at hstart
    · next hlt =>
        cases hstart
        exact ⟨Value.fits_array_iff.mpr ⟨hlt, by simp⟩, h⟩
    · cases hstart
  · split at hstart
    · next hlt =>
        cases hstart
        exact ⟨Value.fits_object_iff.mpr ⟨hlt, List.nodup_nil, by simp⟩, h⟩
    · cases hstart
  · cases hstart

theorem fits_key {read : List (String × Value)}
    (h : StackFits limit (.object read "" :: stack))
    (hkey : Build.key read stack token = some next) : next.Fits limit := by
  rw [Build.key.eq_def] at hkey
  split at hkey
  · cases hkey
    exact h
  · cases hkey

/-- The items of an array are kept backwards while it is read. -/
theorem fits_reverse {read : List Value} {height : Nat}
    (h : (Value.array read).Fits limit height) :
    (Value.array read.reverse).Fits limit height := by
  rw [Value.fits_array_iff] at h ⊢
  simpa only [List.mem_reverse] using h

theorem fits_step (h : build.Fits limit)
    (hstep : Build.step limit build token = some next) :
    next.Fits limit := by
  rw [Build.step.eq_def] at hstep
  split at hstep
  · exact fits_start h hstep
  · cases hstep
    exact fits_accept h.2 h.1
  · exact fits_start h hstep
  · cases hstep
    exact h
  · cases hstep
    exact fits_accept h.2 (fits_reverse h.1)
  · cases hstep
    exact fits_accept h.2 h.1
  · exact fits_key h hstep
  · exact fits_key h hstep
  · cases hstep
    exact h
  · cases hstep
    exact h
  · cases hstep
    exact fits_accept h.2 h.1
  · cases hstep

theorem fits_foldlM {tokens : List Token} (h : build.Fits limit)
    (hrun : tokens.foldlM (Build.step limit) build = some next) :
    next.Fits limit := by
  induction tokens generalizing build with
  | nil =>
      cases hrun
      exact h
  | cons token rest ih =>
      rw [List.foldlM_cons] at hrun
      obtain ⟨after, hafter, hrun⟩ := Option.bind_eq_some_iff.mp hrun
      exact ih (fits_step h hafter) hrun

/-- A value that is read is well-formed and within the limit. -/
theorem fits_of_read? {text : List Char} (h : read? limit text = some v) :
    v.Fits limit 0 := by
  obtain ⟨tokens, -, h⟩ := Option.bind_eq_some_iff.mp h
  rw [build?] at h
  split at h
  · next w hrun =>
      cases h
      have hstart : (Build.value []).Fits limit := trivial
      exact fits_foldlM hstart hrun
  · cases h

end DocumentStore.Json
