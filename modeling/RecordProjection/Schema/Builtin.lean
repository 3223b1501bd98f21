import RecordProjection.Schema.Registry

/-!
# The built-in schemas

The record types of awards, entities, forecasts, grants, notices, opportunities and vehicles, with
their fields in the order in which they are documented; a wildcard follows that order.
-/
namespace RecordProjection

/-- A field whose value may be left out. -/
def FieldSchema.plain (name type : String) : FieldSchema := ⟨name, type, true, false, none⟩

/-- A field that every record has. -/
def FieldSchema.mandatory (name type : String) : FieldSchema := ⟨name, type, false, false, none⟩

/-- A field whose value is a list. -/
def FieldSchema.listOf (name type : String) : FieldSchema := ⟨name, type, true, true, none⟩

/-- A field given as an object that can also be read as a record. -/
def FieldSchema.object (name model : String) : FieldSchema :=
  ⟨name, "dict", true, false, some model⟩

namespace Model

/-- The record type Contract. -/
def contract : Model :=
  ⟨"Contract",
   [.mandatory "key" "str", .plain "piid" "str", .plain "award_date" "date",
    .plain "description" "str", .plain "fiscal_year" "int",
    .plain "total_contract_value" "Decimal", .plain "base_and_exercised_options_value" "Decimal",
    .plain "obligated" "Decimal", .plain "naics_code" "str", .plain "psc_code" "str",
    .plain "set_aside" "str", .plain "recipient" "RecipientProfile",
    .plain "awarding_agency" "Agency", .plain "funding_agency" "Agency",
    .plain "awarding_office" "Office", .plain "funding_office" "Office",
    .plain "place_of_performance" "Location",
    .plain "period_of_performance" "PeriodOfPerformance", .object "parent_award" "AwardReference",
    .plain "competition" "Competition", .plain "legislative_mandates" "LegislativeMandates",
    .listOf "transactions" "Transaction", .plain "subawards_summary" "SubawardsSummary",
    .plain "last_modified" "datetime"]⟩

/-- The record type IDV. -/
def idv : Model :=
  ⟨"IDV",
   [.plain "uuid" "str", .mandatory "key" "str", .plain "piid" "str", .plain "award_date" "date",
    .plain "description" "str", .plain "fiscal_year" "int",
    .plain "total_contract_value" "Decimal", .plain "base_and_exercised_options_value" "Decimal",
    .plain "obligated" "Decimal", .object "idv_type" "CodeDescription",
    .plain "multiple_or_single_award_idv" "str", .object "type_of_idc" "CodeDescription",
    .plain "period_of_performance" "PeriodOfPerformance", .plain "recipient" "RecipientProfile",
    .plain "awarding_office" "Office", .plain "funding_office" "Office",
    .plain "place_of_performance" "Location", .object "parent_award" "AwardReference",
    .plain "competition" "Competition", .plain "legislative_mandates" "LegislativeMandates",
    .listOf "transactions" "Transaction", .plain "subawards_summary" "SubawardsSummary",
    .plain "title" "str", .plain "order_count" "int", .plain "idv_obligations" "Decimal",
    .plain "idv_contracts_value" "Decimal"]⟩

/-- The record type Entity. -/
def entity : Model :=
  ⟨"Entity",
   [.plain "key" "str", .plain "display_name" "str", .mandatory "uei" "str",
    .plain "cage_code" "str", .plain "legal_business_name" "str", .plain "dba_name" "str",
    .listOf "business_types" "str", .plain "primary_naics" "str", .listOf "naics_codes" "str",
    .listOf "psc_codes" "str", .plain "email_address" "str", .plain "entity_url" "str",
    .plain "description" "str", .plain "capabilities" "str", .listOf "keywords" "str",
    .plain "physical_address" "Location", .plain "mailing_address" "Location",
    .plain "federal_obligations" "dict", .plain "congressional_district" "str"]⟩

/-- The record type RecipientProfile. -/
def recipientProfile : Model :=
  ⟨"RecipientProfile",
   [.plain "uei" "str", .plain "cage_code" "str", .plain "display_name" "str",
    .plain "legal_business_name" "str", .plain "parent_uei" "str", .plain "parent_name" "str",
    .listOf "business_types" "str", .plain "location" "Location"]⟩

/-- The record type Location. -/
def location : Model :=
  ⟨"Location",
   [.plain "address_line1" "str", .plain "address_line2" "str", .plain "city" "str",
    .plain "state" "str", .plain "state_code" "str", .plain "zip_code" "str", .plain "zip" "str",
    .plain "zip4" "str", .plain "country" "str", .plain "country_code" "str",
    .plain "county" "str", .plain "congressional_district" "str", .plain "latitude" "float",
    .plain "longitude" "float"]⟩

/-- The record type Agency. -/
def agency : Model :=
  ⟨"Agency",
   [.mandatory "code" "str", .mandatory "name" "str", .plain "abbreviation" "str",
    .plain "department" "Department"]⟩

/-- The record type Department. -/
def department : Model :=
  ⟨"Department",
   [.mandatory "code" "str", .mandatory "name" "str", .plain "abbreviation" "str"]⟩

/-- The record type Office. -/
def office : Model :=
  ⟨"Office",
   [.plain "office_code" "str", .plain "office_name" "str", .plain "agency_code" "str",
    .plain "agency_name" "str", .plain "department_code" "str", .plain "department_name" "str"]⟩

/-- The record type PeriodOfPerformance. -/
def periodOfPerformance : Model :=
  ⟨"PeriodOfPerformance",
   [.plain "start_date" "date", .plain "current_end_date" "date",
    .plain "ultimate_completion_date" "date", .plain "last_date_to_order" "date"]⟩

/-- The record type AwardReference. -/
def awardReference : Model :=
  ⟨"AwardReference",
   [.mandatory "key" "str", .plain "piid" "str"]⟩

/-- The record type Competition. -/
def competition : Model :=
  ⟨"Competition",
   [.object "extent_competed" "CodeDescription",
    .object "solicitation_procedures" "CodeDescription",
    .object "other_than_full_and_open_competition" "CodeDescription",
    .plain "number_of_offers_received" "int",
    .object "commercial_item_acquisition_procedures" "CodeDescription"]⟩

/-- The record type LegislativeMandates. -/
def legislativeMandates : Model :=
  ⟨"LegislativeMandates",
   [.plain "clinger_cohen_act_planning" "bool",
    .plain "construction_wage_rate_requirements" "bool", .plain "labor_standards" "bool",
    .plain "materials_supplies_articles_equipment" "bool",
    .plain "other_statutory_authority" "str"]⟩

/-- The record type Transaction. -/
def transaction : Model :=
  ⟨"Transaction",
   [.plain "modification_number" "str", .plain "transaction_date" "date",
    .plain "obligated" "Decimal", .plain "description" "str",
    .object "action_type" "CodeDescription"]⟩

/-- The record type SubawardsSummary. -/
def subawardsSummary : Model :=
  ⟨"SubawardsSummary",
   [.plain "count" "int", .plain "total_amount" "Decimal"]⟩

/-- The record type CodeDescription. -/
def codeDescription : Model :=
  ⟨"CodeDescription",
   [.plain "code" "str", .plain "description" "str"]⟩

/-- The record type Forecast. -/
def forecast : Model :=
  ⟨"Forecast",
   [.mandatory "id" "int", .mandatory "title" "str", .plain "description" "str",
    .plain "anticipated_award_date" "date", .plain "fiscal_year" "int", .plain "naics_code" "str",
    .plain "status" "str", .plain "is_active" "bool", .plain "agency" "str"]⟩

/-- The record type Grant. -/
def grant : Model :=
  ⟨"Grant",
   [.mandatory "grant_id" "int", .mandatory "opportunity_number" "str", .mandatory "title" "str",
    .plain "agency_code" "str", .object "status" "CodeDescription", .plain "description" "str",
    .plain "last_updated" "datetime"]⟩

/-- The record type Notice. -/
def notice : Model :=
  ⟨"Notice",
   [.mandatory "notice_id" "str", .mandatory "title" "str", .plain "solicitation_number" "str",
    .plain "description" "str", .plain "posted_date" "date", .plain "naics_code" "str"]⟩

/-- The record type Opportunity. -/
def opportunity : Model :=
  ⟨"Opportunity",
   [.mandatory "opportunity_id" "str", .mandatory "title" "str",
    .plain "solicitation_number" "str", .plain "description" "str",
    .plain "response_deadline" "datetime", .plain "active" "bool", .plain "naics_code" "str",
    .plain "psc_code" "str"]⟩

/-- The record type Vehicle. -/
def vehicle : Model :=
  ⟨"Vehicle",
   [.mandatory "uuid" "str", .mandatory "solicitation_identifier" "str", .plain "agency_id" "str",
    .plain "organization_id" "str", .object "vehicle_type" "CodeDescription",
    .object "who_can_use" "CodeDescription", .object "type_of_idc" "CodeDescription",
    .object "contract_type" "CodeDescription", .plain "agency_details" "dict",
    .listOf "descriptions" "str", .plain "fiscal_year" "int", .plain "solicitation_title" "str",
    .plain "solicitation_description" "str", .plain "solicitation_date" "date",
    .plain "naics_code" "int", .plain "psc_code" "str", .plain "set_aside" "str",
    .plain "award_date" "date", .plain "last_date_to_order" "date", .plain "awardee_count" "int",
    .plain "order_count" "int", .plain "vehicle_obligations" "Decimal",
    .plain "vehicle_contracts_value" "Decimal", .object "competition_details" "Competition"]⟩

/-- All built-in record types. -/
def builtin : List Model :=
  [contract, idv, entity, recipientProfile, location, agency, department, office,
   periodOfPerformance, awardReference, competition, legislativeMandates, transaction,
   subawardsSummary, codeDescription, forecast, grant, notice, opportunity, vehicle]

end Model

/-- The registry of the built-in record types. -/
def Registry.builtin : Registry := ⟨Model.builtin, by decide +kernel⟩

end RecordProjection
