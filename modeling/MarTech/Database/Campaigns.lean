import MarTech.Database.Models
import Mathlib.Data.Prod.Lex

namespace MarTech

structure CampaignMetric (R : Type) where
  id         : Nat
  campaignId : String
  metricName : String
  value      : R
  computedAt : Timestamp
deriving DecidableEq

instance {R : Type} : Keyed (CampaignMetric R) Nat where
  key := CampaignMetric.id

variable {R : Type}

-- The sort key of the query in `CampaignRepo.metrics`.
def CampaignMetric.computed (metric : CampaignMetric R) : Timestamp ×ₗ Nat :=
  toLex (metric.computedAt, metric.id)

def CampaignRepo.get (campaigns : Table CampaignRow) (campaignId : String) : Option CampaignRow :=
  campaigns.get campaignId

def CampaignRepo.metrics (metrics : Table (CampaignMetric R)) (campaignId : String) :
    List (CampaignMetric R) :=
  (metrics.rows.filter (·.campaignId = campaignId)).mergeSort (·.computed ≤ ·.computed)

end MarTech
