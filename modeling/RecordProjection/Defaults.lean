import RecordProjection.Schema.Builtin
import RecordProjection.Shape.Parser

/-!
# Default shapes

A shape for each of the usual views of the built-in record types. Every one of them can be
resolved against the built-in schemas.
-/
namespace RecordProjection

/-- A record type and a shape in shape syntax, under a name. -/
structure DefaultShape where
  name : String
  model : String
  text : String
  deriving DecidableEq

namespace DefaultShape

/-- All default shapes. -/
def all : List DefaultShape :=
  [⟨"CONTRACTS_MINIMAL", "Contract",
    "key,piid,award_date,recipient(display_name),description,total_contract_value"⟩,
   ⟨"ENTITIES_MINIMAL", "Entity",
    "uei,legal_business_name,cage_code,business_types"⟩,
   ⟨"ENTITIES_COMPREHENSIVE", "Entity",
    "uei,legal_business_name,dba_name,cage_code,business_types,primary_naics,naics_codes,"
      ++ "psc_codes,email_address,entity_url,description,capabilities,keywords,physical_address,"
      ++ "mailing_address,federal_obligations,congressional_district"⟩,
   ⟨"FORECASTS_MINIMAL", "Forecast",
    "id,title,anticipated_award_date,fiscal_year,naics_code,status"⟩,
   ⟨"OPPORTUNITIES_MINIMAL", "Opportunity",
    "opportunity_id,title,solicitation_number,response_deadline,active"⟩,
   ⟨"NOTICES_MINIMAL", "Notice",
    "notice_id,title,solicitation_number,posted_date"⟩,
   ⟨"GRANTS_MINIMAL", "Grant",
    "grant_id,opportunity_number,title,status(*),agency_code"⟩,
   ⟨"IDVS_MINIMAL", "IDV",
    "key,piid,award_date,recipient(display_name,uei),description,total_contract_value,"
      ++ "obligated,idv_type"⟩,
   ⟨"IDVS_COMPREHENSIVE", "IDV",
    "key,piid,award_date,description,fiscal_year,total_contract_value,"
      ++ "base_and_exercised_options_value,obligated,idv_type,multiple_or_single_award_idv,"
      ++ "type_of_idc,period_of_performance(start_date,last_date_to_order),"
      ++ "recipient(display_name,legal_business_name,uei,cage_code),awarding_office(*),"
      ++ "funding_office(*),place_of_performance(*),parent_award(key,piid),competition(*),"
      ++ "legislative_mandates(*),transactions(*),subawards_summary(*)"⟩,
   ⟨"VEHICLES_MINIMAL", "Vehicle",
    "uuid,solicitation_identifier,organization_id,awardee_count,order_count,"
      ++ "vehicle_obligations,vehicle_contracts_value,solicitation_title,solicitation_date"⟩,
   ⟨"VEHICLES_COMPREHENSIVE", "Vehicle",
    "uuid,solicitation_identifier,agency_id,organization_id,vehicle_type,who_can_use,"
      ++ "solicitation_title,solicitation_description,solicitation_date,naics_code,psc_code,"
      ++ "set_aside,fiscal_year,award_date,last_date_to_order,awardee_count,order_count,"
      ++ "vehicle_obligations,vehicle_contracts_value,type_of_idc,contract_type,"
      ++ "competition_details(*)"⟩,
   ⟨"VEHICLE_AWARDEES_MINIMAL", "IDV",
    "uuid,key,piid,award_date,title,order_count,idv_obligations,idv_contracts_value,"
      ++ "recipient(display_name,uei)"⟩
  ]

/-- The default shape of a name. -/
def find? (name : String) : Option DefaultShape := all.find? fun d => d.name == name

end DefaultShape
end RecordProjection
