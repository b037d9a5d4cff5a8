import SecondBrain.Knowledge.CaptureRules
import SecondBrain.Lib.JsonReader

/-!
# One capture for a key

The row of a key carries the hash of what it was created from, which no change writes.
A creation that finds its key taken is compared with that hash. So what has become of
the capture makes no difference to it, and neither does the order in which the
creations came.
-/

namespace SecondBrain

open Lib

namespace Knowledge

variable {sha256 : Sha256} {s s' : Library} {l : LibraryLabel} {db db' : Store} {i j : Nat}

/-! ## Fingerprints -/

/-- The capture that a creation has made. -/
structure Original (sha256 : Sha256) (db : Store) (q : CaptureCreate) (content : String)
    (id : Uuid) : Prop where
  normal : normalizeCaptureContent q.content = .ok content
  key : validateIdempotencyKey q.idempotencyKey = .ok q.idempotencyKey
  project : db.hasProject q.projectId = true
  row : ∃ c, db.capture? id = some c ∧ c.idempotencyKeyHash = sha256 q.idempotencyKey ∧
    c.requestFingerprint = requestFingerprint sha256 content q.projectId

theorem Original.later {q : CaptureCreate} {content : String} {id : Uuid}
    (h : Original sha256 db q content id) (hlater : Later db db') :
    Original sha256 db' q content id := by
  obtain ⟨c, hc, hkey, hfingerprint⟩ := h.row
  obtain ⟨c', hc', -, hkey', hfingerprint', -⟩ := hlater.capture hc
  exact ⟨h.normal, h.key, hlater.grows.hasProject h.project, c', hc', hkey'.trans hkey,
    hfingerprint'.trans hfingerprint⟩

end Knowledge

end SecondBrain
