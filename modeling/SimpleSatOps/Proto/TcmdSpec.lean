import SimpleSatOps.Lib.CText

/-!
# The telecommand table

* `tcmdSpec` : the telecommands the firmware accepts, with their argument counts, readiness and argument types;
* `tcmdSpecFind` : the row of a name;
* `argTypes_length` : every row types all its arguments.
-/

namespace SimpleSatOps.TcmdSpec

/-- `tcmd_readiness_t`. -/
inductive Readiness where
  | operation | recoveryOrExpert | flightTesting | groundOnly | highRisk
deriving DecidableEq

/-- `tcmd_spec_t`; `argTypes` has one type code per argument. -/
structure Spec where
  name : List UInt8
  numArgs : ℕ
  readiness : Readiness
  argTypes : List UInt8

/-- `tcmd_readiness_label`. -/
def readinessLabel : Readiness → List UInt8
  | .operation => text "operation"
  | .recoveryOrExpert => text "recovery/expert"
  | .flightTesting => text "flight-testing"
  | .groundOnly => text "ground-only"
  | .highRisk => text "high-risk/unsafe"

/-- A row as the table writes it. -/
def row (name : String) (numArgs : ℕ) (readiness : Readiness) (argTypes : String) : Spec :=
  ⟨text name, numArgs, readiness, text argTypes⟩

/-- `TCMD_SPEC`. -/
def tcmdSpec : List Spec := [
  row "hello_world" 0 .operation "",
  row "obc_firmware_version" 0 .operation "",
  row "core_system_stats" 0 .operation "",
  row "get_all_system_thermal_info" 0 .operation "",
  row "get_system_time" 0 .operation "",
  row "set_system_time_approx" 1 .operation "u",
  row "set_system_time" 1 .operation "u",
  row "correct_system_time" 1 .operation "i",
  row "set_eps_time_based_on_obc_time" 0 .operation "",
  row "set_obc_time_based_on_eps_time" 0 .operation "",
  row "set_obc_time_based_on_gnss_time" 0 .operation "",
  row "set_obc_time_based_on_gnss_pps" 0 .operation "",
  row "available_telecommands" 0 .operation "",
  row "reboot" 0 .operation "",
  row "exec_blob_from_fs" 3 .recoveryOrExpert "sus",
  row "scan_i2c_bus" 1 .operation "s",
  row "scan_i2c_bus_verbose" 1 .operation "s",
  row "system_self_check_failures_as_json" 0 .operation "",
  row "system_self_check_as_json" 0 .operation "",
  row "obc_get_rbf_state" 0 .operation "",
  row "uart_send_hex" 2 .operation "sh",
  row "uart_send_str" 2 .operation "ss",
  row "uart_send_hex_get_response_hex" 2 .operation "sh",
  row "uart_get_last_rx_times_json" 0 .operation "",
  row "uart_get_errors_json" 0 .operation "",
  row "uart_set_baud_rate" 2 .operation "su",
  row "echo_back_args" 1 .operation "s",
  row "echo_back_uint32_args" 3 .operation "uuu",
  row "run_all_unit_tests" 0 .operation "",
  row "demo_blocking_delay" 1 .flightTesting "u",
  row "demo_os_delay" 1 .flightTesting "u",
  row "config_set_int_var" 2 .operation "su",
  row "config_set_str_var" 2 .operation "ss",
  row "config_get_int_var_json" 1 .operation "s",
  row "config_get_str_var_json" 1 .operation "s",
  row "config_get_all_vars_jsonl" 0 .operation "",
  row "config_get_all_int_vars_json" 0 .operation "",
  row "flash_activate_each_cs" 0 .flightTesting "",
  row "flash_each_is_reachable" 0 .operation "",
  row "flash_read_hex" 3 .operation "uuu",
  row "flash_write_hex" 3 .flightTesting "uuh",
  row "flash_erase" 2 .flightTesting "uu",
  row "flash_benchmark_erase_write_read" 3 .flightTesting "uuu",
  row "flash_reset" 1 .flightTesting "u",
  row "flash_read_status_register" 1 .operation "u",
  row "flash_force_corrupt_filesystem" 1 .highRisk "u",
  row "fs_format_storage" 0 .recoveryOrExpert "",
  row "fs_mount" 0 .operation "",
  row "fs_unmount" 0 .operation "",
  row "fs_list_directory" 3 .operation "suu",
  row "fs_list_directory_json" 3 .operation "suu",
  row "fs_make_directory" 1 .operation "s",
  row "fs_write_file_str" 2 .operation "ss",
  row "fs_write_file_hex" 3 .operation "suh",
  row "fs_delete_file" 1 .operation "s",
  row "fs_delete_dir" 1 .operation "s",
  row "fs_read_file_hex" 3 .operation "suu",
  row "fs_read_text_file" 3 .operation "suu",
  row "fs_read_file_sha256_hash_json" 3 .operation "suu",
  row "fs_demo_write_then_read" 1 .flightTesting "s",
  row "fs_demo_write_random_data" 3 .flightTesting "suu",
  row "fs_benchmark_write_read" 2 .flightTesting "uu",
  row "fs_get_filesystem_stats_json" 0 .operation "",
  row "fs_compress_file_with_heatshrink" 4 .operation "ssuu",
  row "fs_count_str_occurrences" 2 .operation "ss",
  row "fs_find_nth_str_occurrence" 3 .operation "ssu",
  row "fs_count_hex_occurrences" 2 .operation "sh",
  row "fs_find_nth_hex_occurrence" 3 .operation "shu",
  row "adcs_ack" 0 .operation "",
  row "adcs_set_wheel_speed" 3 .operation "iii",
  row "adcs_reset" 0 .operation "",
  row "adcs_identification" 0 .operation "",
  row "adcs_program_status" 0 .operation "",
  row "adcs_communication_status" 0 .operation "",
  row "adcs_deploy_magnetometer" 1 .operation "u",
  row "adcs_set_run_mode" 1 .operation "u",
  row "adcs_clear_errors" 0 .operation "",
  row "adcs_attitude_control_mode" 2 .operation "uu",
  row "adcs_attitude_estimation_mode" 1 .operation "u",
  row "adcs_run_once" 0 .operation "",
  row "adcs_set_magnetometer_mode" 1 .operation "u",
  row "adcs_set_magnetorquer_output" 3 .operation "ddd",
  row "adcs_save_config" 0 .operation "",
  row "adcs_estimate_angular_rates" 0 .operation "",
  row "adcs_get_llh_position" 0 .operation "",
  row "adcs_get_power_control" 0 .operation "",
  row "adcs_set_power_control" 10 .operation "uuuuuuuuuu",
  row "adcs_enter_low_power_mode" 1 .operation "u",
  row "adcs_track_sun" 0 .operation "",
  row "adcs_set_magnetometer_config" 15 .operation "ddddddddddddddd",
  row "adcs_bootloader_clear_errors" 0 .operation "",
  row "adcs_set_unix_time_save_mode" 4 .operation "uuuu",
  row "adcs_get_unix_time_save_mode" 0 .operation "",
  row "adcs_set_sgp4_orbit_params" 8 .operation "dddddddd",
  row "adcs_get_sgp4_orbit_params" 0 .operation "",
  row "adcs_save_orbit_params" 0 .operation "",
  row "adcs_rate_sensor_rates" 0 .operation "",
  row "adcs_get_wheel_speed" 0 .operation "",
  row "adcs_get_magnetorquer_command" 0 .operation "",
  row "adcs_get_raw_magnetometer_values" 0 .operation "",
  row "adcs_estimate_fine_angular_rates" 0 .operation "",
  row "adcs_get_magnetometer_config" 0 .operation "",
  row "adcs_get_commanded_attitude_angles" 0 .operation "",
  row "adcs_set_commanded_attitude_angles" 3 .operation "ddd",
  row "adcs_set_estimation_params" 17 .operation "ddddddduuuuuuuuuu",
  row "adcs_get_estimation_params" 0 .operation "",
  row "adcs_set_augmented_sgp4_params" 17 .operation "ddddddduddudduddu",
  row "adcs_get_augmented_sgp4_params" 0 .operation "",
  row "adcs_set_tracking_controller_target_reference" 3 .operation "ddd",
  row "adcs_get_tracking_controller_target_reference" 0 .operation "",
  row "adcs_set_rate_gyro_config" 7 .operation "uuudddu",
  row "adcs_get_rate_gyro_config" 0 .operation "",
  row "adcs_estimated_attitude_angles" 0 .operation "",
  row "adcs_magnetic_field_vector" 0 .operation "",
  row "adcs_fine_sun_vector" 0 .operation "",
  row "adcs_nadir_vector" 0 .operation "",
  row "adcs_commanded_wheel_speed" 0 .operation "",
  row "adcs_igrf_magnetic_field_vector" 0 .operation "",
  row "adcs_quaternion_error_vector" 0 .operation "",
  row "adcs_estimated_gyro_bias" 0 .operation "",
  row "adcs_estimation_innovation_vector" 0 .operation "",
  row "adcs_raw_cam1_sensor" 0 .operation "",
  row "adcs_raw_cam2_sensor" 0 .operation "",
  row "adcs_raw_coarse_sun_sensor_1_to_6" 0 .operation "",
  row "adcs_raw_coarse_sun_sensor_7_to_10" 0 .operation "",
  row "adcs_cubecontrol_current" 0 .operation "",
  row "adcs_measurements" 0 .operation "",
  row "adcs_download_sd_file_by_index" 1 .operation "u",
  row "adcs_download_sd_file_by_checksum" 1 .operation "h",
  row "adcs_generic_command" 2 .operation "uh",
  row "adcs_generic_bootloader_command" 2 .operation "uh",
  row "adcs_generic_telemetry_request" 2 .operation "uu",
  row "adcs_acp_execution_state" 0 .operation "",
  row "adcs_get_current_state_1" 0 .operation "",
  row "adcs_save_image_to_sd" 2 .operation "uu",
  row "adcs_request_commissioning_telemetry" 3 .operation "uuu",
  row "adcs_synchronize_unix_time" 0 .operation "",
  row "adcs_get_current_unix_time" 0 .operation "",
  row "adcs_set_sd_log_config" 4 .operation "uhuu",
  row "adcs_get_sd_log_config" 1 .operation "u",
  row "adcs_format_sd" 0 .operation "",
  row "adcs_download_index_file" 2 .operation "uu",
  row "adcs_set_commissioning_modes" 2 .operation "uu",
  row "adcs_erase_sd_file_by_index" 1 .operation "u",
  row "adcs_erase_sd_file_by_checksum" 1 .operation "h",
  row "adcs_exit_bootloader" 0 .operation "",
  row "adcs_convert_to_jpg_by_index" 3 .operation "uuu",
  row "adcs_convert_to_jpg_by_checksum" 3 .operation "huu",
  row "adcs_get_wheel_currents" 0 .operation "",
  row "adcs_get_cubesense_currents" 0 .operation "",
  row "adcs_get_misc_currents" 0 .operation "",
  row "log_set_sink_enabled_state" 2 .operation "uu",
  row "log_set_system_file_logging_enabled_state" 2 .operation "uu",
  row "log_report_all_sink_enabled_states" 0 .operation "",
  row "log_report_all_system_file_logging_states" 0 .operation "",
  row "log_set_sink_debugging_messages_state" 2 .operation "uu",
  row "log_set_system_severity_mask" 2 .operation "uu",
  row "log_set_system_debugging_messages_state" 2 .operation "uu",
  row "log_report_messages_from_memory" 2 .operation "uu",
  row "log_report_n_latest_messages_from_memory" 1 .operation "u",
  row "freetos_list_tasks_jsonl" 0 .operation "",
  row "freertos_demo_stack_usage" 1 .flightTesting "u",
  row "eps_watchdog" 0 .operation "",
  row "eps_system_reset" 0 .recoveryOrExpert "",
  row "eps_no_operation" 0 .operation "",
  row "eps_cancel_operation" 0 .operation "",
  row "eps_switch_to_mode" 1 .operation "s",
  row "eps_set_channel_enabled" 2 .operation "su",
  row "eps_get_system_status_json" 0 .operation "",
  row "eps_get_pdu_overcurrent_fault_state_json" 0 .operation "",
  row "eps_get_pbu_abf_placed_state_json" 0 .operation "",
  row "eps_get_pdu_data_for_channel_json" 1 .operation "s",
  row "eps_get_pdu_housekeeping_data_eng_json" 0 .operation "",
  row "eps_get_pdu_active_channels_data_json" 0 .operation "",
  row "eps_get_pdu_active_channels_data_run_avg_json" 0 .operation "",
  row "eps_get_pdu_housekeeping_data_run_avg_json" 0 .operation "",
  row "eps_get_pbu_housekeeping_data_eng_json" 0 .operation "",
  row "eps_get_pbu_housekeeping_data_run_avg_json" 0 .operation "",
  row "eps_get_pcu_housekeeping_data_eng_json" 0 .operation "",
  row "eps_get_pcu_housekeeping_data_run_avg_json" 0 .operation "",
  row "eps_get_piu_housekeeping_data_eng_json" 0 .operation "",
  row "eps_get_piu_housekeeping_data_run_avg_json" 0 .operation "",
  row "eps_get_enabled_channels_json" 0 .operation "",
  row "eps_get_current_battery_percent" 0 .operation "",
  row "eps_power_management_set_current_threshold" 2 .operation "su",
  row "agenda_fetch_json_grouped" 0 .operation "",
  row "agenda_fetch_logged_jsonl" 0 .operation "",
  row "agenda_delete_all" 0 .operation "",
  row "agenda_delete_by_tssent" 1 .operation "u",
  row "agenda_delete_by_name" 1 .operation "s",
  row "agenda_enqueue_from_file" 3 .operation "suu",
  row "mpi_send_command_get_response_hex" 1 .operation "h",
  row "mpi_demo_tx_to_mpi" 0 .groundOnly "",
  row "mpi_set_transceiver_mode" 1 .operation "s",
  row "mpi_enable_active_mode" 1 .operation "s",
  row "mpi_disable_active_mode" 0 .operation "",
  row "stm32_internal_flash_read" 2 .recoveryOrExpert "hu",
  row "stm32_internal_flash_write" 2 .highRisk "hh",
  row "stm32_internal_flash_page_erase" 3 .highRisk "uuu",
  row "stm32_internal_flash_bank_erase" 1 .highRisk "u",
  row "stm32_internal_flash_get_option_bytes" 0 .highRisk "",
  row "stm32_internal_flash_get_active_flash_bank" 0 .highRisk "",
  row "stm32_internal_flash_set_active_flash_bank" 1 .highRisk "u",
  row "stm32_internal_flash_write_file_to_internal_flash" 4 .highRisk "suuu",
  row "stm32_internal_flash_calculate_sha256" 2 .recoveryOrExpert "uu",
  row "ant_reset" 1 .operation "s",
  row "ant_arm_antenna_system" 1 .operation "s",
  row "ant_disarm_antenna_system" 1 .operation "s",
  row "ant_deploy_antenna" 3 .operation "suu",
  row "ant_start_automated_antenna_deployment" 2 .operation "su",
  row "ant_deploy_antenna_with_override" 3 .operation "suu",
  row "ant_cancel_deployment_system_activation" 1 .operation "s",
  row "ant_measure_temp" 1 .operation "s",
  row "ant_report_deployment_status" 1 .operation "s",
  row "ant_report_antenna_deployment_activation_count" 2 .operation "su",
  row "ant_report_antenna_deployment_activation_time" 2 .operation "su",
  row "obc_read_temperature_complex" 1 .operation "s",
  row "obc_read_temperature" 0 .operation "",
  row "obc_adc_read_vbat_voltage" 0 .operation "",
  row "obc_set_stm32_sysclk_to_hse" 0 .operation "",
  row "comms_set_rf_switch_control_mode" 1 .flightTesting "s",
  row "comms_get_rf_switch_info" 0 .operation "",
  row "comms_bulk_file_downlink_start" 3 .operation "suu",
  row "comms_bulk_file_downlink_pause" 0 .operation "",
  row "comms_bulk_file_downlink_resume" 0 .operation "",
  row "comms_bulk_uplink_open_file" 2 .operation "ss",
  row "comms_bulk_uplink_close_file" 0 .operation "",
  row "comms_bulk_uplink_write_bytes_hex" 1 .operation "h",
  row "bulkup16" 1 .operation "h",
  row "comms_bulk_uplink_write_bytes_base64" 1 .operation "b",
  row "bulkup64" 1 .operation "b",
  row "comms_bulk_uplink_seek" 1 .operation "u",
  row "gnss_send_cmd_ascii" 1 .operation "s",
  row "gnss_send_cmd_ascii_get_response_hex" 1 .operation "s",
  row "gnss_enable_firehose_storage_mode" 1 .operation "s",
  row "gnss_disable_firehose_storage_mode" 0 .operation "",
  row "camera_setup" 0 .operation "",
  row "camera_test" 0 .recoveryOrExpert "",
  row "camera_change_baud_rate" 1 .recoveryOrExpert "s",
  row "camera_capture" 2 .operation "ss",
  row "boom_deploy_timed" 2 .recoveryOrExpert "uu",
  row "boom_self_check" 0 .operation ""]

/-- `tcmd_spec_find`. -/
def tcmdSpecFind (name : List UInt8) : Option Spec := tcmdSpec.find? fun spec => spec.name == name

theorem argTypes_length : ∀ spec ∈ tcmdSpec, spec.argTypes.length = spec.numArgs := by decide +kernel

end SimpleSatOps.TcmdSpec
